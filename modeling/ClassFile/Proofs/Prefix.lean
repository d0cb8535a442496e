import ClassFile.Proofs.Parametric
import ClassFile.Session

/-!
# A decoding depends on nothing but the bytes it takes

A step that takes bytes from the front of its input and looks at no others has two
properties. Whatever follows the bytes that it takes, it does the same; and if some of them
are missing, it fails because the input ends. `ClassFile.Prefixed` says both of a successful
step, and holds of a sequence of steps if it holds of each of them.

The state in which a step finds its input differs: for a reading of numbers it is the input
itself, then there is a pool that is being filled, and the whole decoder. A
`ClassFile.Feed` is where in a state the input stands. Steps that leave the input alone
altogether are `ClassFile.Unfed`; that whatever they do is independent of the input holds even
when they fail, so a signature may be tried out although its fault is passed over.

For a class file this comes to `ClassFile.Session.run_of_prefix`: bytes after the end of a
class are not looked at, and no class is decoded from a proper prefix of its bytes.
-/

namespace ClassFile

/-! ### The input in a state -/

/-- The place of the input in a state. -/
structure Feed (σ : Type) where
  input : σ → Input
  put : Input → σ → σ
  input_put (i : Input) (s : σ) : input (put i s) = i
  put_input (s : σ) : put (input s) s = s

namespace Feed

attribute [simp] input_put put_input

/-- The input is the whole state. -/
def whole : Feed Input where
  input := id
  put i _ := i
  input_put _ _ := rfl
  put_input _ := rfl

/-- The input from which a pool is filled. -/
def filling : Feed Pool.Filling where
  input := Pool.Filling.input
  put i s := { s with input := i }
  input_put _ _ := rfl
  put_input _ := rfl

/-- The input of a decoder. -/
def decoder : Feed Decoder where
  input := Decoder.input
  put i s := { s with input := i }
  input_put _ _ := rfl
  put_input _ := rfl

end Feed

variable {σ τ α β : Type} {feed : Feed σ}

/-! ### Steps that leave the input alone -/

/-- Changes the state in which a step ended. -/
def onState (f : σ → σ) : EStateM.Result Fault σ α → EStateM.Result Fault σ α
  | .ok value t => .ok value (f t)
  | .error fault t => .error fault (f t)

/-- The step does the same on any input, and leaves it alone. -/
def Unfed (feed : Feed σ) (m : EStateM Fault σ α) : Prop :=
  ∀ i s, m (feed.put i s) = onState (feed.put i) (m s)

namespace Unfed

theorem pure (a : α) : Unfed feed (Pure.pure a) := fun _ _ => rfl

theorem throw (fault : Fault) : Unfed feed (MonadExcept.throw fault : EStateM Fault σ α) :=
  fun _ _ => rfl

/-- Steps that leave the input alone may be taken one after the other. -/
theorem bind {m : EStateM Fault σ α} {f : α → EStateM Fault σ β} (hm : Unfed feed m)
    (hf : ∀ a, Unfed feed (f a)) : Unfed feed (m >>= f) := by
  intro i s
  change EStateM.bind m f (feed.put i s) = onState (feed.put i) (EStateM.bind m f s)
  rw [EStateM.bind, EStateM.bind, hm i s]
  cases m s with
  | ok a t => exact hf a i t
  | error fault t => rfl

theorem modify {f : σ → σ} (hf : ∀ i s, f (feed.put i s) = feed.put i (f s)) :
    Unfed feed (modify f : EStateM Fault σ Unit) := by
  intro i s
  change EStateM.Result.ok () (f (feed.put i s)) = .ok () (feed.put i (f s))
  rw [hf]

/-- What is looked up in the state must not be the input. -/
theorem look {k : σ → EStateM Fault σ α} (hk : ∀ s, Unfed feed (k s))
    (hput : ∀ i s, k (feed.put i s) = k s) : Unfed feed (get >>= k) := by
  intro i s
  change k (feed.put i s) (feed.put i s) = onState (feed.put i) (k s s)
  rw [hput]
  exact hk s i s

end Unfed

/-! ### Steps that take bytes from the front -/

/-- If the step succeeds, then it takes bytes off the front of the input, it does the same
wherever they stand and whatever follows them, and it fails because the input ends if some of
them are missing. -/
def Prefixed (feed : Feed σ) (m : EStateM Fault σ α) : Prop :=
  ∀ s value t, m s = .ok value t → ∃ taken : Bytes,
    feed.input s = ⟨(feed.input s).offset, taken ++ (feed.input t).rest⟩ ∧
    (feed.input t).offset = (feed.input s).offset + taken.length ∧
    (∀ offset rest, m (feed.put ⟨offset, taken ++ rest⟩ s) =
      .ok value (feed.put ⟨offset + taken.length, rest⟩ t)) ∧
    ∀ n < taken.length, ∃ offset wanted u,
      m (feed.put ⟨(feed.input s).offset, taken.take n⟩ s) = .error (.endOfInput offset wanted) u

/-- A step that leaves the input alone takes no bytes, so it does not matter which bytes follow
those that it takes. -/
theorem Unfed.prefixed {m : EStateM Fault σ α} (hm : Unfed feed m) : Prefixed feed m := by
  intro s value t h
  have hinput : feed.input t = feed.input s := by
    have hput := hm (feed.input s) s
    rw [feed.put_input, h, onState, EStateM.Result.ok.injEq] at hput
    rw [hput.2, feed.input_put]
  refine ⟨[], by rw [hinput]; rfl, by rw [hinput]; rfl, fun offset rest => ?_,
    fun n hn => nomatch hn⟩
  rw [hm, h]
  rfl

namespace Prefixed

theorem pure (a : α) : Prefixed feed (Pure.pure a) := (Unfed.pure a).prefixed

theorem throw (fault : Fault) : Prefixed feed (MonadExcept.throw fault : EStateM Fault σ α) :=
  (Unfed.throw fault).prefixed

/-- Two steps that take their bytes from the front take theirs one after the other. If the first one
runs out of bytes then the second one is not reached. -/
theorem bind {m : EStateM Fault σ α} {f : α → EStateM Fault σ β} (hm : Prefixed feed m)
    (hf : ∀ a, Prefixed feed (f a)) : Prefixed feed (m >>= f) := by
  intro s value u h
  have hbind (s : σ) : (m >>= f) s = EStateM.bind m f s := rfl
  rw [hbind, EStateM.bind] at h
  cases hs : m s with
  | error fault t => rw [hs] at h; exact nomatch h
  | ok a t =>
    rw [hs] at h
    obtain ⟨taken, hfront, hoffset, hrest, hshort⟩ := hm s a t hs
    obtain ⟨taken', hfront', hoffset', hrest', hshort'⟩ := hf a t value u h
    refine ⟨taken ++ taken', ?_, ?_, fun offset rest => ?_, fun n hn => ?_⟩
    · have hmiddle : (feed.input t).rest = taken' ++ (feed.input u).rest :=
        congrArg Input.rest hfront'
      rw [List.append_assoc, ← hmiddle]
      exact hfront
    · rw [hoffset', hoffset, List.length_append, Nat.add_assoc]
    · rw [hbind, EStateM.bind, List.append_assoc, hrest, List.length_append, ← Nat.add_assoc]
      exact hrest' (offset + taken.length) rest
    -- the first step misses bytes, or it has all of its own and the second one misses some
    · rcases Nat.lt_or_ge n taken.length with hlt | hge
      · obtain ⟨offset, wanted, v, hv⟩ := hshort n hlt
        refine ⟨offset, wanted, v, ?_⟩
        rw [hbind, EStateM.bind, List.take_append_of_le_length (Nat.le_of_lt hlt), hv]
      · rw [List.length_append] at hn
        obtain ⟨offset, wanted, v, hv⟩ := hshort' (n - taken.length) (by omega)
        refine ⟨offset, wanted, v, ?_⟩
        rw [hbind, EStateM.bind, List.take_append, List.take_of_length_le hge, hrest, ← hoffset]
        exact hv

/-- A look at anything but the input takes no bytes. -/
theorem look {k : σ → EStateM Fault σ α} (hk : ∀ s, Prefixed feed (k s))
    (hput : ∀ i s, k (feed.put i s) = k s) : Prefixed feed (get >>= k) := by
  intro s value t h
  have hget (i : Input) : (get >>= k) (feed.put i s) = k s (feed.put i s) := by
    rw [← hput i s]
    rfl
  obtain ⟨taken, hfront, hoffset, hrest, hshort⟩ := hk s s value t h
  refine ⟨taken, hfront, hoffset, fun offset rest => ?_, fun n hn => ?_⟩
  · rw [hget]
    exact hrest offset rest
  · obtain ⟨offset, wanted, u, hu⟩ := hshort n hn
    exact ⟨offset, wanted, u, (hget _).trans hu⟩

/-- A step on a part of the state is one on the state, if the input stands in that part. -/
theorem zoom {part : Feed τ} (view : σ → τ) (update : τ → σ → σ)
    (hinput : ∀ s, part.input (view s) = feed.input s)
    (hview : ∀ i s, view (feed.put i s) = part.put i (view s))
    (hupdate : ∀ i j s t, update (part.put i t) (feed.put j s) = feed.put i (update t s))
    (hresult : ∀ s t, feed.input (update t s) = part.input t) {m : EStateM Fault τ α}
    {m' : EStateM Fault σ α} (hm : Prefixed part m)
    (heq : ∀ s, m' s = match m (view s) with
      | .ok value t => .ok value (update t s)
      | .error fault t => .error fault (update t s)) : Prefixed feed m' := by
  intro s value t h
  rw [heq] at h
  cases hs : m (view s) with
  | error fault t => rw [hs] at h; exact nomatch h
  | ok a u =>
    rw [hs] at h
    cases h
    obtain ⟨taken, hfront, hoffset, hrest, hshort⟩ := hm (view s) value u hs
    rw [hinput] at hfront hoffset hshort
    refine ⟨taken, ?_, ?_, fun offset rest => ?_, fun n hn => ?_⟩
    · rw [hresult]
      exact hfront
    · rw [hresult]
      exact hoffset
    · rw [heq, hview, hrest]
      exact congrArg _ (hupdate ..)
    · obtain ⟨offset, wanted, v, hv⟩ := hshort n hn
      let short : Input := ⟨(feed.input s).offset, taken.take n⟩
      refine ⟨offset, wanted, update v (feed.put short s), ?_⟩
      rw [heq, hview, hv]

/-! ### Readings of numbers and texts -/

/-- So many bytes are taken if there are so many. If there are fewer, then what is missing is the
end of the input, whatever the file would have gone on with. -/
theorem take (n : Nat) : Prefixed .whole (Input.take n) := by
  intro input value rest h
  have hlength : n ≤ input.rest.length := by
    refine Nat.le_of_not_lt fun hlt => ?_
    rw [Input.take_of_lt hlt] at h
    exact nomatch h
  rw [Input.take_of_le hlength] at h
  cases h
  have htaken : (input.rest.take n).length = n := List.length_take_of_le hlength
  refine ⟨input.rest.take n, ?_, ?_, fun offset tail => ?_, fun m hm => ?_⟩
  · change input = ⟨input.offset, input.rest.take n ++ input.rest.drop n⟩
    rw [List.take_append_drop]
  · exact congrArg (input.offset + ·) htaken.symm
  · have htail : n ≤ (input.rest.take n ++ tail).length := by
      rw [List.length_append, htaken]
      exact Nat.le_add_right n tail.length
    change Input.take n ⟨offset, input.rest.take n ++ tail⟩ =
      .ok (input.rest.take n) ⟨offset + (input.rest.take n).length, tail⟩
    rw [Input.take_of_le htail, htaken]
    simp only [List.take_left' htaken, List.drop_left' htaken]
  · refine ⟨input.offset, n, ⟨input.offset, (input.rest.take n).take m⟩, Input.take_of_lt ?_⟩
    change ((input.rest.take n).take m).length < n
    rw [List.length_take]
    omega

/-- All readers of numbers are made of the readers of single parts, and take their bytes from the
front. -/
theorem composed : Reader.Composed fun m => Prefixed .whole m where
  pure := pure
  throw _ := throw _
  bind := bind
  take := take

/-! ### The pool -/

/-- While the pool is filled, an entry is read from the same input as before. -/
theorem field {reader : Reader α} (h : Prefixed .whole reader) :
    Prefixed .filling (Pool.Filling.field reader) :=
  zoom Pool.Filling.input (fun input s => { s with input }) (fun _ => rfl) (fun _ _ => rfl)
    (fun _ _ _ _ => rfl) (fun _ _ => rfl) h fun s => by
      rw [Pool.Filling.field]
      cases reader s.input <;> rfl

/-- Slot by slot the pool is filled from the front. A shorter file runs out within an entry, or
between two of them. -/
theorem fill (room slot : Nat) : Prefixed .filling (Pool.fill room slot) := by
  induction room using Nat.strongRecOn generalizing slot with
  | ind room ih =>
    cases room with
    | zero => exact pure ()
    | succ room =>
      rw [Pool.fill_succ]
      refine (field composed.u1).bind fun tag => ?_
      split
      · exact pure ()
      refine (field (composed.entry tag slot)).bind fun found => ?_
      refine (Unfed.modify fun _ _ => rfl).prefixed.bind fun _ => ?_
      exact ih _ (by have := found.width_pos; omega) _

theorem pool : Prefixed .filling Pool.read := by
  refine (field composed.u2).bind fun count => ?_
  have hrest : Prefixed .filling (do
      modify fun state : Pool.Filling =>
        { state with pool := ⟨Array.replicate count.toNat .unused⟩ }
      Pool.fill (count.toNat - 1) 1) :=
    (Unfed.modify fun _ _ => rfl).prefixed.bind fun _ => fill _ 1
  dsimp only
  split
  · exact (throw _).bind fun _ => hrest
  · exact hrest

end Prefixed

/-! ### Decodings -/

namespace Decode

variable {context : Context}

theorem unfed_indifferent : Indifferent context context
    fun {α} (m m' : Decode α) => m = m' ∧ Unfed .decoder m where
  pure a := ⟨rfl, .pure a⟩
  bind hm hf := ⟨by rw [hm.1, funext fun a => (hf a).1], hm.2.bind fun a => (hf a).2⟩
  throw fault := ⟨rfl, .throw fault⟩
  look {_ k k'} hk := by
    have hput (i : Input) (s : Decoder) : k { s with input := i } = k s :=
      (hk { s with input := i } s rfl).1.trans (hk s s rfl).1.symm
    refine ⟨congrArg (get >>= ·) (funext fun s => (hk s s rfl).1), ?_⟩
    exact .look (fun s => (hk s s rfl).2) hput
  change g := ⟨rfl, .modify fun _ _ => rfl⟩
  packageOf type := ⟨rfl, fun _ _ => rfl⟩
  tell event := by
    refine ⟨rfl, .modify fun i s => ?_⟩
    rw [Decoder.told, Decoder.told]
    cases context.listener <;> rfl

/-- To try a step out and see whether it succeeds does not look at the input if the step does
not. -/
theorem unfed_succeeds {m : Decode Unit} (hm : Unfed .decoder m) :
    Unfed .decoder (succeeds m) := by
  intro i s
  rw [succeeds, succeeds, hm i s]
  cases m s <;> rfl

/-- The body of an attribute was taken from the input before, and what is read in it is read from
the body. So the input of the file is left alone. -/
theorem unfed_within (bytes : Bytes) (m : Decode Unit) : Unfed .decoder (within bytes m) := by
  intro i s
  simp only [within, Feed.decoder]
  cases m { s with input := .ofBytes bytes } <;> rfl

theorem prefixed_read {α : Type} {reader : Reader α} (h : Prefixed .whole reader) :
    Prefixed .decoder (read reader) :=
  .zoom Decoder.input (fun input s => { s with input }) (fun _ => rfl) (fun _ _ => rfl)
    (fun _ _ _ _ => rfl) (fun _ _ => rfl) h fun s => by
      rw [read]
      cases reader s.input <;> rfl

theorem prefixed_readPool : Prefixed .decoder readPool :=
  .zoom (fun s => ⟨s.input, s.pool⟩)
    (fun filled s => { s with input := filled.input, pool := filled.pool }) (fun _ => rfl)
    (fun _ _ => rfl) (fun _ _ _ _ => rfl) (fun _ _ => rfl) Prefixed.pool fun s => by
      rw [readPool]
      cases Pool.read ⟨s.input, s.pool⟩ <;> rfl

/-- All that a decoding does with its input is to take bytes from the front. -/
theorem prefixed_parametric : Parametric context context
    fun {α} (m m' : Decode α) => m = m' ∧ Prefixed .decoder m where
  pure a := ⟨rfl, .pure a⟩
  bind hm hf := ⟨by rw [hm.1, funext fun a => (hf a).1], hm.2.bind fun a => (hf a).2⟩
  throw fault := ⟨rfl, .throw fault⟩
  look {_ k k'} hk := by
    have hput (i : Input) (s : Decoder) : k { s with input := i } = k s :=
      (hk { s with input := i } s rfl).1.trans (hk s s rfl).1.symm
    refine ⟨congrArg (get >>= ·) (funext fun s => (hk s s rfl).1), ?_⟩
    exact .look (fun s => (hk s s rfl).2) hput
  change g := ⟨rfl, (Unfed.modify fun _ _ => rfl).prefixed⟩
  packageOf type := ⟨rfl, (unfed_indifferent.packageOf type).2.prefixed⟩
  tell event := ⟨rfl, (unfed_indifferent.tell event).2.prefixed⟩
  take n := ⟨rfl, prefixed_read (.take n)⟩
  within {bytes m m'} hm := ⟨by rw [hm.1], (unfed_within bytes m).prefixed⟩
  readPool := ⟨rfl, prefixed_readPool⟩
  attempt index access :=
    ⟨rfl, (unfed_succeeds (unfed_indifferent.naming.referDescriptor index access).2).prefixed⟩
  call index := ⟨rfl, (unfed_indifferent.call rfl index).2.prefixed⟩

/-- What is done at the end of a step, whether or not it succeeds, leaves the input alone. -/
theorem prefixed_ending {α : Type} {m : Decode α} (hm : Prefixed .decoder m)
    {finish : Decoder → Decoder}
    (hfinish : ∀ i s, finish { s with input := i } = { finish s with input := i }) :
    Prefixed .decoder (ending m finish) := by
  intro s value u h
  rw [ending] at h
  cases hs : m s with
  | error fault t => rw [hs] at h; exact nomatch h
  | ok a t =>
    rw [hs] at h
    cases h
    have hinput : (finish t).input = t.input := by rw [hfinish]
    obtain ⟨taken, hfront, hoffset, hrest, hshort⟩ := hm s value t hs
    refine ⟨taken, ?_, ?_, fun offset rest => ?_, fun n hn => ?_⟩
    · change s.input = ⟨s.input.offset, taken ++ (finish t).input.rest⟩
      rw [hinput]
      exact hfront
    · change (finish t).input.offset = _
      rw [hinput]
      exact hoffset
    · rw [ending, hrest]
      change EStateM.Result.ok value (finish { t with input := ⟨offset + taken.length, rest⟩ }) =
        .ok value { finish t with input := ⟨offset + taken.length, rest⟩ }
      rw [hfinish]
    · obtain ⟨offset, wanted, v, hv⟩ := hshort n hn
      refine ⟨offset, wanted, finish v, ?_⟩
      rw [ending, hv]

/-- A class file is read from the front, with a listener or without one. -/
theorem prefixed_classFile (context : Context) : Prefixed .decoder (classFile context) := by
  refine prefixed_parametric.classHeader.2.bind fun ⟨record, orphan⟩ => ?_
  have hbody : Prefixed .decoder (some <$> classBody context orphan) :=
    (prefixed_parametric.classBody orphan).2.bind fun _ => .pure _
  have htell (event : Event) : Prefixed .decoder (tell context event) :=
    (prefixed_parametric.tell event).2
  have htold (i : Input) (s : Decoder) :
      Decoder.told context .classEnd { s with input := i } =
        { Decoder.told context .classEnd s with input := i } := by
    rw [Decoder.told, Decoder.told]
    cases context.listener <;> rfl
  dsimp only
  cases context.listener with
  | none => exact hbody
  | some listener =>
    refine (htell _).bind fun _ => .look (fun s => prefixed_ending ?_ htold) fun _ _ => rfl
    split
    · exact hbody
    · exact .pure none

end Decode

namespace Session

variable {options : Options} {listener : Option Listener} {bytes : Bytes} {session : Session}

/-- **Decoding a class file reads strictly from the front**: what follows the bytes that were
read can be anything, and no proper prefix of them is decoded, nor rejected for any reason
but that the input ends. -/
theorem run_of_prefix {outcome : Option Record}
    (h : (session.run options listener bytes).outcome = .ok outcome) :
    session.consumed options listener bytes ≤ bytes.length ∧
    (∀ n < session.consumed options listener bytes, ∃ offset wanted,
      (session.run options listener (bytes.take n)).outcome =
        .error (.endOfInput offset wanted)) ∧
    ∀ tail, session.run options listener
        (bytes.take (session.consumed options listener bytes) ++ tail) =
      session.run options listener bytes := by
  rw [run] at h
  cases hrun : Decode.classFile ⟨options.namer, listener⟩
    (session.decoder options listener bytes) with
  | error fault t => rw [hrun] at h; exact nomatch h
  | ok record t =>
    obtain ⟨taken, hfront, hoffset, hrest, hshort⟩ := Decode.prefixed_classFile _ _ _ _ hrun
    -- the bytes that the decoding takes are those that are consumed
    have hbytes : bytes = taken ++ t.input.rest := congrArg Input.rest hfront
    have hconsumed : session.consumed options listener bytes = taken.length := by
      rw [consumed, hrun]
      exact hoffset.trans (Nat.zero_add _)
    have htaken : bytes.take taken.length = taken := by
      rw [hbytes, List.take_left' rfl]
    rw [hconsumed, htaken]
    refine ⟨?_, fun n hn => ?_, fun tail => ?_⟩
    · rw [hbytes, List.length_append]
      exact Nat.le_add_right taken.length t.input.rest.length
    · obtain ⟨offset, wanted, u, hu⟩ := hshort n hn
      refine ⟨offset, wanted, ?_⟩
      have hfront : bytes.take n = taken.take n := by
        rw [hbytes, List.take_append_of_le_length (Nat.le_of_lt hn)]
      have hu : Decode.classFile ⟨options.namer, listener⟩
          (session.decoder options listener (taken.take n)) =
          .error (.endOfInput offset wanted) u := hu
      rw [hfront, run, hu]
    · have htail : Decode.classFile ⟨options.namer, listener⟩
          (session.decoder options listener (taken ++ tail)) =
          .ok record { t with input := ⟨0 + taken.length, tail⟩ } := hrest 0 tail
      rw [run, run, htail, hrun]

/-- The smallest class file has a pool of two constants and no members. It is all read, so it is all
needed: each of its 31 prefixes ends too early, and anything may follow it. -/
theorem run_of_prefix_of_smallest :
    let smallest : Bytes := [0xCA, 0xFE, 0xBA, 0xBE, 0, 0, 0, 52, 0, 3, 1, 0, 1, 65, 7, 0, 1,
      0, 0x21, 0, 2, 0, 0, 0, 0, 0, 0, 0, 0, 0, 0]
    (∃ outcome, (Session.run {} none smallest {}).outcome = .ok outcome) ∧
    (∀ n < 31, ∃ offset wanted,
      (Session.run {} none (smallest.take n) {}).outcome = .error (.endOfInput offset wanted)) ∧
    ∀ tail, Session.run {} none (smallest.take 31 ++ tail) {} =
      Session.run {} none smallest {} := by
  intro smallest
  have hok : (Session.run {} none smallest {}).outcome.isOk = true := by decide +kernel
  have hconsumed : Session.consumed {} none smallest {} = 31 := by decide +kernel
  cases hrun : (Session.run {} none smallest {}).outcome with
  | error fault => rw [hrun] at hok; exact nomatch hok
  | ok outcome =>
    obtain ⟨-, hshort, htail⟩ := run_of_prefix hrun
    rw [hconsumed] at hshort htail
    exact ⟨⟨outcome, rfl⟩, hshort, htail⟩

end Session

end ClassFile
