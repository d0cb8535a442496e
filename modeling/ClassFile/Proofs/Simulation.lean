import ClassFile.Proofs.Invariant
import ClassFile.Proofs.Parametric
import ClassFile.Session

/-!
# Simulations between decodings

Two decodings of the same bytes can run under different contexts: with different listeners,
or with one session that others have used and one that is new. To show that they come to
the same, one relates the states in which they stand. A relation `R` between states is lifted
to steps by `ClassFile.Decode.Simulates`: from related states the two steps end alike, with
the same value or with faults that a second relation `E` allows, and in related states again.
Mostly `E` is equality; where it is known to be total, all that counts is whether a step fails.

If related states agree in what a decoding keeps for itself and in their input, and stay
related when both of these change in the same way, then nothing but packages and listeners
can tell them apart (`ClassFile.Decode.Simulates.parametric`), and a whole decoding is
simulated (`ClassFile.Decode.Simulates.classFile`).
-/

namespace ClassFile.Decode

variable {E : Fault → Fault → Prop} {R : Decoder → Decoder → Prop} {c d : Context} {α β : Type}

/-- Two ends of a step: the same value, or faults that `E` relates, in related states. -/
inductive Alike (E : Fault → Fault → Prop) (R : Decoder → Decoder → Prop) {α : Type} :
    EStateM.Result Fault Decoder α → EStateM.Result Fault Decoder α → Prop
  | ok {value : α} {s t : Decoder} : R s t → Alike E R (.ok value s) (.ok value t)
  | error {fault other : Fault} {s t : Decoder} : E fault other → R s t →
    Alike E R (.error fault s) (.error other t)

/-- Two results are alike if both are values, or both are faults. It is the form in which a run of
both sides is looked at. -/
theorem Alike.eq_or {x y : EStateM.Result Fault Decoder α} (h : Alike E R x y) :
    (∃ value s t, x = .ok value s ∧ y = .ok value t ∧ R s t) ∨
      ∃ fault other s t, x = .error fault s ∧ y = .error other t ∧ E fault other ∧ R s t := by
  cases h with
  | ok hst => exact .inl ⟨_, _, _, rfl, rfl, hst⟩
  | error hfault hst => exact .inr ⟨_, _, _, _, rfl, rfl, hfault, hst⟩

/-- From related states the two steps end alike. -/
def Simulates (E : Fault → Fault → Prop) (R : Decoder → Decoder → Prop) (m m' : Decode α) : Prop :=
  ∀ s t, R s t → Alike E R (m s) (m' t)

/-- A relation of states that have the same input, which does not matter otherwise. -/
structure SameInput (R : Decoder → Decoder → Prop) : Prop where
  input {s t : Decoder} : R s t → s.input = t.input
  withInput {s t : Decoder} (input : Input) :
    R s t → R { s with input := input } { t with input := input }

/-- A relation of states that only the session and the notes can break. -/
structure Congruent (R : Decoder → Decoder → Prop) : Prop extends SameInput R where
  core {s t : Decoder} : R s t → s.core = t.core
  withCore {s t : Decoder} (core : Decoder.Core) : R s t → R (s.withCore core) (t.withCore core)

namespace Alike

variable {s t : Decoder}

/-- Two steps in a row end alike if the first ones do, and if the second ones do from wherever these
have come to. -/
theorem bind {m m' : Decode α} {f f' : α → Decode β} (h : Alike E R (m s) (m' t))
    (hf : ∀ {a s' t'}, m' t = .ok a t' → R s' t' → Alike E R (f a s') (f' a t')) :
    Alike E R ((m >>= f) s) ((m' >>= f') t) := by
  obtain ⟨a, s', t', hs, ht, hnext⟩ | ⟨fault, other, s', t', hs, ht, hfault, hnext⟩ := h.eq_or
  · rw [EStateM.bind_of_ok hs, EStateM.bind_of_ok ht]
    exact hf ht hnext
  · rw [EStateM.bind_of_error hs, EStateM.bind_of_error ht]
    exact .error hfault hnext

/-- A trial comes to the same, for only its outcome is looked at. -/
theorem succeeds {m m' : Decode Unit} (h : Alike E R (m s) (m' t)) :
    Alike E R (succeeds m s) (succeeds m' t) := by
  rw [Decode.succeeds, Decode.succeeds]
  obtain ⟨a, s', t', hs, ht, hnext⟩ | ⟨fault, other, s', t', hs, ht, hfault, hnext⟩ := h.eq_or
  · rw [hs, ht]
    exact .ok hnext
  · rw [hs, ht]
    exact .ok hnext

/-- The part of the input that an attribute has to itself is looked at alike, if what is done there
ends alike. -/
theorem within (hR : SameInput R) {bytes : Bytes} {m m' : Decode α} (hst : R s t)
    (h : Alike E R (m { s with input := .ofBytes bytes }) (m' { t with input := .ofBytes bytes })) :
    Alike E R (within bytes m s) (within bytes m' t) := by
  rw [Decode.within, Decode.within, hR.input hst]
  obtain ⟨a, s', t', hs, ht, hnext⟩ | ⟨fault, other, s', t', hs, ht, hfault, hnext⟩ := h.eq_or
  · rw [hs, ht]
    exact .ok (hR.withInput _ hnext)
  · rw [hs, ht]
    exact .error hfault (hR.withInput _ hnext)

end Alike

namespace Simulates

/-! ### Composition -/

theorem pure (a : α) : Simulates E R (Pure.pure a) (Pure.pure a) := fun _ _ hst => .ok hst

theorem throw {fault : Fault} (hfault : E fault fault) :
    Simulates E R (MonadExcept.throw fault : Decode α) (MonadExcept.throw fault) :=
  fun _ _ hst => .error hfault hst

/-- Two steps in a row are simulated if each of them is. The second ones get the same value. -/
theorem bind {m m' : Decode α} {f f' : α → Decode β} (hm : Simulates E R m m')
    (hf : ∀ a, Simulates E R (f a) (f' a)) : Simulates E R (m >>= f) (m' >>= f') :=
  fun s t hst => (hm s t hst).bind fun _ hnext => hf _ _ _ hnext

theorem modify {f f' : Decoder → Decoder} (hf : ∀ s t, R s t → R (f s) (f' t)) :
    Simulates E R (modify f) (modify f') := fun s t hst => .ok (hf s t hst)

/-- Both change their records, or have none, and then both fail for the same reason. -/
theorem updateRecord (hnone : E .noHeader .noHeader)
    (hsome : ∀ {s t}, R s t → s.record.isSome = t.record.isSome) {f : Record → Record}
    (hf : ∀ {s t}, R s t →
      R { s with record := s.record.map f } { t with record := t.record.map f }) :
    Simulates E R (updateRecord f) (updateRecord f) := by
  intro s t hst
  have hsame := hsome hst
  have hnext := hf hst
  rcases Option.eq_none_or_eq_some s.record with hs | ⟨found, hs⟩
  · rw [hs] at hsame
    have ht : t.record = none :=
      Option.isNone_iff_eq_none.1 (Option.isSome_eq_false_iff.1 hsame.symm)
    rw [updateRecord_of_none hs, updateRecord_of_none ht]
    exact .error hnone hst
  · rw [hs] at hsame
    obtain ⟨other, ht⟩ := Option.isSome_iff_exists.1 hsame.symm
    rw [hs, ht] at hnext
    rw [updateRecord_of_some hs, updateRecord_of_some ht]
    exact .ok hnext

theorem succeeds {m m' : Decode Unit} (hm : Simulates E R m m') :
    Simulates E R (succeeds m) (succeeds m') := fun s t hst => (hm s t hst).succeeds

/-- What is done in the end, be there a fault or not, keeps the states related. -/
theorem ending {m m' : Decode α} {f f' : Decoder → Decoder} (hm : Simulates E R m m')
    (hf : ∀ s t, R s t → R (f s) (f' t)) : Simulates E R (ending m f) (ending m' f') := by
  intro s t hst
  rw [Decode.ending, Decode.ending]
  obtain ⟨a, s', t', hs, ht, hnext⟩ | ⟨fault, other, s', t', hs, ht, hfault, hnext⟩ :=
    (hm s t hst).eq_or
  · rw [hs, ht]
    exact .ok (hf _ _ hnext)
  · rw [hs, ht]
    exact .error hfault (hf _ _ hnext)

/-- A step that is as good as doing nothing succeeds, and what it leads to is related to what was
there before. -/
theorem ok_of_pure {m : Decode Unit} (hm : Simulates E R m (Pure.pure ())) {s t : Decoder}
    (hst : R s t) : ∃ u, m s = .ok () u ∧ R u t := by
  obtain ⟨_, u, v, hs, ht, hnext⟩ | ⟨_, _, _, _, _, ht, _⟩ := (hm s t hst).eq_or
  · cases ht
    exact ⟨u, hs, hnext⟩
  · cases ht

/-! ### Steps that the session has no part in -/

/-- The same bytes are read on both sides, if related states have the same input. -/
theorem read (hE : ∀ fault, E fault fault) (hR : SameInput R) (reader : Reader α) :
    Simulates E R (read reader) (read reader) := by
  intro s t hst
  rw [Decode.read, Decode.read, hR.input hst]
  cases reader t.input with
  | ok value input => exact .ok (hR.withInput input hst)
  | error fault input => exact .error (hE fault) (hR.withInput input hst)

/-- And the same part of the input may be looked at by itself. -/
theorem within (hR : SameInput R) {bytes : Bytes} {m m' : Decode α} (hm : Simulates E R m m') :
    Simulates E R (within bytes m) (within bytes m') :=
  fun _ _ hst => (hm _ _ (hR.withInput (.ofBytes bytes) hst)).within hR hst

theorem readPool (hR : Congruent R) : Simulates Eq R readPool readPool := by
  intro s t hst
  rw [Decode.readPool, Decode.readPool, hR.input hst,
    show s.pool = t.pool from congrArg Decoder.Core.pool (hR.core hst)]
  have hput (filled : Pool.Filling) :
      R { s with input := filled.input, pool := filled.pool }
        { t with input := filled.input, pool := filled.pool } := by
    have hnext := hR.withInput filled.input
      (hR.withCore { t.core with pool := filled.pool } hst)
    have hs : s.withCore { t.core with pool := filled.pool } = { s with pool := filled.pool } := by
      rw [← hR.core hst]
      rfl
    rw [hs] at hnext
    exact hnext
  cases Pool.read ⟨t.input, t.pool⟩ with
  | ok _ filled => exact .ok (hput filled)
  | error fault filled => exact .error rfl (hput filled)

/-- Whatever is respected by requests for packages and by listeners is respected wherever something
is collected, if related states have equal cores. -/
theorem indifferent (hR : Congruent R)
    (hpackage : ∀ type, Simulates Eq R (packageOf c type) (packageOf d type))
    (htell : ∀ event, Simulates Eq R (tell c event) (tell d event)) :
    Indifferent c d (Simulates Eq R) where
  pure := pure
  bind := bind
  throw _ := throw rfl
  look hk s t hst := hk s t (hR.core hst) s t hst
  change g := modify fun s t hst => by
    rw [hR.core hst]
    exact hR.withCore _ hst
  packageOf := hpackage
  tell := htell

/-- **Only packages and listeners can tell related states apart.** This is what is left to show when
two decodings of the same bytes are compared: that packages are handed out alike, and that listeners
are told alike. -/
theorem parametric (hR : Congruent R) (hlistening : c.listener.isSome = d.listener.isSome)
    (hpackage : ∀ type, Simulates Eq R (packageOf c type) (packageOf d type))
    (htell : ∀ event, Simulates Eq R (tell c event) (tell d event)) :
    Parametric c d (Simulates Eq R) where
  toIndifferent := indifferent hR hpackage htell
  take _ := read (fun _ => rfl) hR.toSameInput _
  within := within hR.toSameInput
  readPool := readPool hR
  attempt index access :=
    ((indifferent hR hpackage htell).naming.referDescriptor index access).succeeds
  call index := (indifferent hR hpackage htell).call hlistening index

/-! ### A whole class file -/

/-- To tell of an event keeps the states related. -/
theorem told (h : Parametric c d (Simulates Eq R)) (event : Event) {s t : Decoder} (hst : R s t) :
    R (s.told c event) (t.told d event) := by
  cases h.tell event s t hst with
  | ok hnext => exact hnext

/-- **Two decodings of a class file are alike** if their listeners admit the same classes in
related states. -/
theorem classFile (h : Parametric c d (Simulates Eq R))
    (hlistening : c.listener.isSome = d.listener.isSome)
    (hadmits : ∀ listener ∈ c.listener, ∀ other ∈ d.listener, ∀ s t record, R s t →
      listener.admits s.notes record s.session = other.admits t.notes record t.session) :
    Simulates Eq R (classFile c) (classFile d) := by
  refine bind h.classHeader fun ⟨record, orphan⟩ => ?_
  dsimp only
  cases hc : c.listener with
  | none =>
    rw [hc] at hlistening
    have hd : d.listener = none :=
      Option.isNone_iff_eq_none.1 (Option.isSome_eq_false_iff.1 hlistening.symm)
    rw [hd]
    exact bind (h.classBody orphan) fun _ => pure _
  | some listener =>
    rw [hc] at hlistening
    obtain ⟨other, hd⟩ := Option.isSome_iff_exists.1 hlistening.symm
    rw [hd]
    refine bind (h.tell _) fun _ s t hst => ?_
    refine ending ?_ (fun s t hst => told h .classEnd hst) s t hst
    rw [hadmits listener hc other hd s t record hst]
    split
    · exact bind (h.classBody orphan) fun _ => pure _
    · exact pure none

end Simulates

end ClassFile.Decode
