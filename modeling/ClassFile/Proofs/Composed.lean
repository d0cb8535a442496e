import ClassFile.Bytecode.Instruction
import ClassFile.Pool.Reading
import ClassFile.Proofs.Questions

/-!
# Readings that are composed of others

Numbers, texts, the entries of a pool and instructions are read in the same way: bytes are taken off
the front of the input, one field after the other, and what they are may be a fault of the file. So
a property that taking bytes has, and that passes to readings composed of others, is a property of
all of these readings (`ClassFile.Reader.Composed`). It is shown here once how they are composed.

An instruction is special in one respect: how much padding there is in a switch depends on the
offset. That a property holds of the padding is an assumption, where instructions are concerned.
-/

namespace EStateM

variable {ε σ α β : Type} {m : EStateM ε σ α} {f : α → EStateM ε σ β} {s t : σ}

theorem bind_of_ok {a : α} (h : m s = .ok a t) : (m >>= f) s = f a t := by
  change EStateM.bind m f s = _
  rw [EStateM.bind, h]

theorem bind_of_error {e : ε} (h : m s = .error e t) : (m >>= f) s = .error e t := by
  change EStateM.bind m f s = _
  rw [EStateM.bind, h]

/-- What comes of two steps, put together from what comes of each. It is used to run a decoding
forwards. -/
theorem bind_eq {a : α} {result : Result ε σ β} (hm : m s = .ok a t) (hf : f a t = result) :
    (m >>= f) s = result :=
  (bind_of_ok hm).trans hf

variable {u : σ}

/-- What has been done in two steps that succeeded: each of them has. It is used to look at a run
backwards, and all modules that take a decoding apart do it with this lemma. -/
theorem ok_of_bind {b : β} (h : (m >>= f) s = .ok b u) :
    ∃ a t, m s = .ok a t ∧ f a t = .ok b u := by
  cases hm : m s with
  | ok a t => exact ⟨a, t, rfl, (bind_of_ok hm).symm.trans h⟩
  | error e t => cases (bind_of_error hm).symm.trans h

/-- What has been done in two steps of which one failed: it was the first one, or the second one
after the first one had succeeded. -/
theorem error_of_bind {e : ε} (h : (m >>= f) s = .error e u) :
    m s = .error e u ∨ ∃ a t, m s = .ok a t ∧ f a t = .error e u := by
  cases hm : m s with
  | ok a t => exact .inr ⟨a, t, rfl, (bind_of_ok hm).symm.trans h⟩
  | error e t =>
    cases (bind_of_error hm).symm.trans h
    exact .inl rfl

end EStateM

namespace ClassFile.Reader

/-- A property of readings that composed readings have if their parts have it. -/
structure Composed (P : ∀ {α : Type}, Reader α → Prop) : Prop where
  pure {α : Type} (a : α) : P (Pure.pure a : Reader α)
  throw {α : Type} {fault : Fault} :
    fault.isInternal = false → P (MonadExcept.throw fault : Reader α)
  bind {α β : Type} {m : Reader α} {f : α → Reader β} :
    P m → (∀ a, P (f a)) → P (m >>= f)
  take (n : Nat) : P (Input.take n)

namespace Composed

variable {P : ∀ {α : Type}, Reader α → Prop}

/-- Where a condition decides, both ways must be among the readers. -/
theorem ite (_ : Composed P) {α : Type} {p : Prop} [Decidable p] {m m' : Reader α} (hm : P m)
    (hm' : P m') : P (if p then m else m') := by
  split
  · exact hm
  · exact hm'

variable (h : Composed P)
include h

theorem skip (n : Nat) : P (Input.skip n) := h.bind (h.take n) fun _ => h.pure _

theorem u1 : P Input.u1 := h.bind (h.take 1) fun _ => h.pure _

theorem u2 : P Input.u2 := h.bind (h.take 2) fun _ => h.pure _

theorem u4 : P Input.u4 := h.bind (h.take 4) fun _ => h.pure _

theorem i4 : P Input.i4 := h.bind h.u4 fun _ => h.pure _

theorem u8 : P Input.u8 := h.bind (h.take 8) fun _ => h.pure _

theorem text : P Input.text := by
  refine h.bind h.u2 fun length => h.bind (h.take length.toNat) fun bytes => ?_
  cases ModifiedUtf8.decode bytes with
  | ok text => exact h.pure text
  | error why => exact h.throw rfl

/-- The entries of a pool are composed of numbers and texts. Which numbers they are depends on the
tag in front. -/
theorem entry (tag : UInt8) (slot : Nat) : P (Entry.read tag slot) := by
  rw [Entry.read]
  split
  · exact h.bind h.text fun _ => h.pure _
  · exact h.throw rfl
  · exact h.bind h.i4 fun _ => h.pure _
  · exact h.bind h.u4 fun _ => h.pure _
  · exact h.bind h.u8 fun _ => h.pure _
  · exact h.bind h.u8 fun _ => h.pure _
  · exact h.bind h.u2 fun _ => h.pure _
  · exact h.bind h.u2 fun _ => h.pure _
  · exact h.bind h.u2 fun _ => h.bind h.u2 fun _ => h.pure _
  · exact h.bind h.u2 fun _ => h.bind h.u2 fun _ => h.pure _
  · exact h.bind h.u2 fun _ => h.bind h.u2 fun _ => h.pure _
  · exact h.bind h.u2 fun _ => h.bind h.u2 fun _ => h.pure _
  · split
    · exact h.bind (h.skip _) fun _ => h.pure _
    · exact h.throw rfl

/-- The size of a jump table is computed from its bounds, and may turn out to be none. -/
theorem jumpTableSize (low high : Int32) :
    P (Instruction.checked (Instruction.jumpTableSize low high)) := by
  rw [Instruction.jumpTableSize]
  split
  · exact h.throw rfl
  · exact h.pure _

/-- And so is the size of a table of pairs. -/
theorem pairTableSize (pairs : Int32) :
    P (Instruction.checked (Instruction.pairTableSize pairs)) := by
  rw [Instruction.pairTableSize]
  split
  · exact h.throw rfl
  · exact h.pure _

/-- What is read of an instruction behind its opcode. -/
theorem operands (halign : P Instruction.align) :
    ∃ rest : UInt8 → Reader Instruction, Instruction.read = Input.u1 >>= rest ∧
      ∀ opcode, P (rest opcode) := by
  refine ⟨_, rfl, fun opcode => ?_⟩
  -- the instructions that name something in the pool
  refine h.ite (h.bind h.u1 fun _ => h.pure _) ?_
  refine h.ite (h.bind h.u2 fun _ => h.pure _) (h.ite (h.bind h.u2 fun _ => h.pure _) ?_)
  refine h.ite (h.bind h.u2 fun _ => h.pure _) (h.ite (h.bind h.u2 fun _ => h.pure _) ?_)
  refine h.ite (h.bind h.u2 fun _ => h.pure _) (h.ite (h.bind h.u2 fun _ => h.pure _) ?_)
  -- the others, of which the two switches have tables
  refine h.ite (h.bind h.u1 fun _ => h.bind (h.skip 2) fun _ => h.pure _) ?_
  refine h.ite ?_ (h.ite ?_ (h.pure _))
  · refine h.bind halign fun _ => h.bind h.i4 fun _ => h.bind h.i4 fun low => ?_
    exact h.bind h.i4 fun high => h.bind (h.jumpTableSize low high) fun _ => h.pure _
  · refine h.bind halign fun _ => h.bind h.i4 fun _ => h.bind h.i4 fun pairs => ?_
    exact h.bind (h.pairTableSize pairs) fun _ => h.pure _

/-- An instruction is composed of its opcode, the padding, the bounds of a table and the
operands. -/
theorem instruction (halign : P Instruction.align) : P Instruction.read := by
  obtain ⟨rest, hread, hrest⟩ := h.operands halign
  rw [hread]
  exact h.bind h.u1 hrest

end Composed

end ClassFile.Reader
