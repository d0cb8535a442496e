import ClassFile.Proofs.Instructions

/-!
# Table switches

What a walk does at a jump for the keys from `low` to `high`, wherever it comes upon one. The places
at which a walk arrives are those to which the instructions lead from the front of the code, as long
as the handlers let it go on (`ClassFile.Handlers.Reaches`), and at each of them what is left of the
walk is a walk through the bytes that are left (`ClassFile.Handlers.Reaches.walk_eq`).

There are `high - low + 1` jumps. Of bounds that are the wrong way round those are turned down for
which this number is below zero. If `high` lies just one below `low` it is not, and such a switch is
passed over as one without jumps (`ClassFile.Handlers.Reaches.walk_tableSwitch`).
-/

namespace ClassFile

namespace Input

variable {n : Nat} {input : Input}

theorem skip_of_le (h : n ≤ input.rest.length) :
    skip n input = .ok () ⟨input.offset + n, input.rest.drop n⟩ :=
  EStateM.bind_of_ok (take_of_le h)

theorem skip_of_lt (h : input.rest.length < n) :
    skip n input = .error (.endOfInput input.offset n) input :=
  EStateM.bind_of_error (take_of_lt h)

end Input

namespace Instruction

variable {low high : Int32}

theorem jumpTableSize_of_lt (h : high.toInt + 1 < low.toInt) :
    jumpTableSize low high = .error (.switchBounds low high) :=
  if_pos (by omega)

theorem jumpTableSize_of_le (h : low.toInt ≤ high.toInt + 1) :
    jumpTableSize low high = .ok (4 * (high.toInt - low.toInt + 1).toNat) := by
  rw [Nat.mul_comm]
  exact if_neg (by omega)

/-- The size is computed in numbers of 64 bits, and none of them is too large. -/
theorem jumpTableSizeGuarded_eq (low high : Int32) :
    jumpTableSizeGuarded low high =
      if high.toInt + 1 < low.toInt then throw (.switchBounds low high)
      else pure (4 * (high.toInt - low.toInt + 1).toNat) := by
  have hlow := low.toInt_lt
  have hlow' := low.le_toInt
  have hhigh := high.toInt_lt
  have hhigh' := high.le_toInt
  have hsize : UInt64.size = 0x10000000000000000 := rfl
  rw [jumpTableSizeGuarded, signedWord?_of_lt (by omega) (by omega), Guarded.expect, pure_bind,
    signedWord?_of_lt (by omega) (by omega), Guarded.expect, pure_bind]
  rcases Int.lt_or_le (high.toInt + 1) low.toInt with hinverted | hbounds
  · rw [if_pos (by omega), if_pos hinverted]
  · rw [if_neg (by omega), if_neg (by omega), Nat.mul_comm 4, word?_of_lt (by omega)]
    rfl

theorem rowFrom_of_nil (fuel offset : Nat) : rowFrom fuel ⟨offset, []⟩ = ⟨[], none⟩ := by
  cases fuel <;> rfl

/-- There are no more instructions than bytes, so that as many steps as there are bytes are enough
to walk through the code. -/
theorem rowFrom_of_le {fuel fuel' : Nat} {input : Input} (hfuel : input.rest.length ≤ fuel)
    (hfuel' : input.rest.length ≤ fuel') : rowFrom fuel input = rowFrom fuel' input := by
  induction fuel generalizing fuel' input with
  | zero =>
    obtain ⟨offset, rest⟩ := input
    obtain rfl := List.eq_nil_of_length_eq_zero (Nat.le_zero.1 hfuel)
    rw [rowFrom_of_nil, rowFrom_of_nil]
  | succ fuel ih =>
    by_cases hnil : input.rest.isEmpty
    · obtain ⟨offset, rest⟩ := input
      obtain rfl := List.isEmpty_iff.1 hnil
      rw [rowFrom_of_nil, rowFrom_of_nil]
    · have hpos : input.rest.length ≠ 0 := fun h => hnil (List.isEmpty_iff_length_eq_zero.2 h)
      obtain ⟨fuel', rfl⟩ := Nat.exists_eq_succ_of_ne_zero (show fuel' ≠ 0 by omega)
      rw [rowFrom, rowFrom, if_neg hnil, if_neg hnil]
      cases hread : read input with
      | error fault left => rfl
      | ok instruction operands =>
        dsimp only
        cases hskip : Input.skip instruction.trailing operands with
        | error fault left => rfl
        | ok _ rest =>
          have htaken := read_takes _ _ _ hread
          have hskipped := Reader.Takes.composed.skip _ _ _ _ hskip
          dsimp only
          rw [@ih fuel' rest (by omega) (by omega)]

end Instruction

namespace Handlers

variable {σ : Type} (handlers : Handlers σ) (targets : Targets)

/-! ### The places that a walk reaches -/

/-- The walk through the bytes that are left. -/
def resume (last : Option UInt16) (input : Input) : EStateM Fault σ Unit :=
  handlers.walkFrom targets input.rest.length last input

theorem walkFrom_eq_resume {fuel : Nat} (last : Option UInt16) {input : Input}
    (hfuel : input.rest.length ≤ fuel) :
    handlers.walkFrom targets fuel last input = handlers.resume targets last input := by
  rw [resume, walkFrom_eq, walkFrom_eq, Instruction.rowFrom_of_le hfuel (Nat.le_refl _)]

/-- The next instruction is acted upon as soon as it is read. -/
theorem resume_of_read {input operands : Input} {instruction : Instruction} (last : Option UInt16)
    (h : Instruction.read input = .ok instruction operands) :
    handlers.resume targets last input = (do
      let next ← handlers.act targets last instruction.action
      match Input.skip instruction.trailing operands with
      | .error fault _ => throw fault
      | .ok _ rest => handlers.resume targets next rest) := by
  have htaken := Instruction.read_takes _ _ _ h
  obtain ⟨fuel, hfuel⟩ := Nat.exists_eq_succ_of_ne_zero (show input.rest.length ≠ 0 by omega)
  have hsome : ¬input.rest.isEmpty := fun hnil => by
    rw [List.isEmpty_iff_length_eq_zero] at hnil
    omega
  rw [resume, hfuel, walkFrom, if_neg hsome, h]
  refine bind_congr fun next => ?_
  cases hskip : Input.skip instruction.trailing operands with
  | error fault left => rfl
  | ok _ rest =>
    have hskipped := Reader.Takes.composed.skip _ _ _ _ hskip
    exact walkFrom_eq_resume handlers targets next (by omega)

theorem resume_of_fault {input left : Input} {fault : Fault} (last : Option UInt16)
    (hsome : input.rest ≠ []) (h : Instruction.read input = .error fault left) :
    handlers.resume targets last input = throw fault := by
  obtain ⟨fuel, hfuel⟩ := Nat.exists_eq_succ_of_ne_zero (mt List.eq_nil_of_length_eq_zero hsome)
  rw [resume, hfuel, walkFrom, if_neg (fun hnil => hsome (List.isEmpty_iff.1 hnil)), h]

/-- A walk arrives in front of some bytes, with the constant that was loaded last and a state of the
handlers. -/
inductive Reaches (code : Bytes) (start : σ) : Input → Option UInt16 → σ → Prop where
  /-- It begins with all of the code. -/
  | start : Reaches code start (.ofBytes code) none start
  /-- It goes on behind an instruction that was acted upon. -/
  | next {input operands rest : Input} {last next : Option UInt16} {s t : σ}
      {instruction : Instruction} (before : Reaches code start input last s)
      (read : Instruction.read input = .ok instruction operands)
      (act : handlers.act targets last instruction.action s = .ok next t)
      (skip : Input.skip instruction.trailing operands = .ok () rest) :
      Reaches code start rest next t

namespace Reaches

variable {handlers} {targets} {code : Bytes} {start s : σ} {last : Option UInt16}

/-- **A walk that has arrived somewhere goes on from there.** -/
theorem walk_eq {input : Input} (h : handlers.Reaches targets code start input last s) :
    handlers.walk targets code start = handlers.resume targets last input s := by
  induction h with
  | start => rfl
  | next _ hread hact hskip ih =>
    rw [ih, resume_of_read handlers targets _ hread, EStateM.bind_of_ok hact, hskip]

variable {offset : Nat} {padding tail : Bytes} {otherwise low high : Int32}

/-- **A walk comes upon a table switch**, with the bytes in front of its jumps there. If its bounds
are the wrong way round by more than one, the walk fails and names them. Otherwise it goes on behind
four bytes for each of the keys, or fails because so many are not left. -/
theorem walk_tableSwitch
    (h : handlers.Reaches targets code start
      ⟨offset, RawInstruction.tableHeader padding otherwise low high ++ tail⟩ last s)
    (hpads : RawInstruction.Pads offset padding) :
    let behind := offset + (RawInstruction.tableHeader padding otherwise low high).length
    let size := 4 * (high.toInt - low.toInt + 1).toNat
    (high.toInt + 1 < low.toInt →
        handlers.walk targets code start = .error (.switchBounds low high) s) ∧
      (low.toInt ≤ high.toInt + 1 →
        (tail.length < size →
          handlers.walk targets code start = .error (.endOfInput behind size) s) ∧
        (size ≤ tail.length →
          handlers.Reaches targets code start ⟨behind + size, tail.drop size⟩ none s ∧
          handlers.walk targets code start =
            handlers.resume targets none ⟨behind + size, tail.drop size⟩ s)) ∧
      ∀ cursor, Instruction.jumpTableSizeGuarded low high cursor =
        if high.toInt + 1 < low.toInt then some (.error (.switchBounds low high), cursor)
        else some (.ok size, cursor) := by
  intro behind size
  -- what is read in front of the jumps is the same in all three cases
  have hread := Instruction.read_tableHeader hpads otherwise low high tail
  refine ⟨fun hinverted => ?_, fun hbounds => ?_, fun cursor => ?_⟩
  · rw [Instruction.jumpTableSize_of_lt hinverted] at hread
    rw [h.walk_eq, resume_of_fault handlers targets last (List.cons_ne_nil _ _) hread]
    rfl
  · rw [Instruction.jumpTableSize_of_le hbounds] at hread
    refine ⟨fun hshort => ?_, fun hroom => ?_⟩
    · rw [h.walk_eq, resume_of_read handlers targets last hread]
      change (match Input.skip size ⟨behind, tail⟩ with
        | .error fault _ => throw fault
        | .ok _ rest => handlers.resume targets none rest : EStateM Fault σ Unit) s = _
      rw [Input.skip_of_lt hshort]
      rfl
    · have hnext := h.next hread rfl (Input.skip_of_le hroom)
      exact ⟨hnext, hnext.walk_eq⟩
  · rw [Instruction.jumpTableSizeGuarded_eq]
    split <;> rfl

/-- A switch over all the keys that there are would have 0x400000000 bytes of jumps, of which none
is there. So the code ends too early, and the size has not wrapped around to a smaller one. -/
theorem walk_tableSwitch_of_extremes :
    let code := 0x00 :: RawInstruction.tableHeader [0, 0] 0 Int32.minValue Int32.maxValue
    (knowing 5 "p.B").Reaches {} code () ⟨1, code.drop 1⟩ none () ∧
      RawInstruction.Pads 1 [0, 0] ∧
      (knowing 5 "p.B").walk {} code () = .error (.endOfInput 16 0x400000000) () := by
  intro code
  have hnop : Instruction.read (.ofBytes code) = .ok ⟨.other, 0⟩ ⟨1, code.drop 1⟩ := rfl
  have hreaches : (knowing 5 "p.B").Reaches {} code () ⟨1, code.drop 1⟩ none () :=
    .next .start hnop rfl rfl
  have hpads : RawInstruction.Pads 1 [0, 0] := by decide
  have htable := @walk_tableSwitch _ _ _ _ _ _ _ 1 [0, 0] [] 0 Int32.minValue Int32.maxValue
    hreaches hpads
  exact ⟨hreaches, hpads, (htable.2.1 (by decide)).1 (by decide)⟩

/-- A switch from one to zero is passed over, though the bounds are the wrong way round: it has no
entries, and no check finds fault with that. -/
theorem walk_tableSwitch_differs :
    let code := RawInstruction.tableHeader [0, 0, 0] 0 1 0
    (knowing 5 "p.B").Reaches {} code () ⟨0, code⟩ none () ∧ RawInstruction.Pads 0 [0, 0, 0] ∧
      (1 : Int32) > 0 ∧ (knowing 5 "p.B").walk {} code () = .ok () () :=
  ⟨.start, by decide, by decide, rfl⟩

end Reaches

end Handlers

end ClassFile
