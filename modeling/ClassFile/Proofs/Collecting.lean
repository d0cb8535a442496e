import ClassFile.Proofs.Acting
import ClassFile.Proofs.Invariant
import ClassFile.Proofs.Simulation

/-!
# Collecting does not show

While a class is decoded without a listener, references are collected all the time, and nothing
that is read depends on them: a step that collects succeeds from everywhere, and apart from what
it collects, and from the mark on a class constant, the decoder stays as it is. What is left of
a decoder without what it has collected is its *bare* part (`ClassFile.Decoder.bare`).

So two decodings can collect different things, and mark different constants, and still go on in
the same way. A relation of states that neither can break is `ClassFile.Decode.Lenient`. If it
says where the states are as well, and what attributes tell does not break it, then it is
`ClassFile.Decode.Local`, and the readers of attributes respect it
(`ClassFile.Decode.Local.lockstep`). They do so even if the two decodings look for different
methods that load classes by name, since all that comes of such a method is another reference
(`ClassFile.Decode.Lenient.walk`).
-/

namespace ClassFile

namespace Decoder

/-- A decoder without what it has collected. -/
def bare (s : Decoder) : Decoder :=
  { s with session := {}, references := ∅, imports := ∅, api := s.api.map fun _ => ∅ }

/-- A decoder that has met the class constant at an index. -/
def marked (index : UInt16) (s : Decoder) : Decoder :=
  { s with pool := (s.pool.markReferred index).2 }

/-- Marking a constant commutes with forgetting what was collected: the marks are in the pool, and
the pool is not what is forgotten. -/
theorem bare_marked {s t : Decoder} (h : t.bare = s.bare) (index : UInt16) :
    (t.marked index).bare = (s.marked index).bare :=
  congrArg (marked index) h

theorem like_of_bare {s t : Decoder} {pool : Pool} (h : t.bare = s.bare)
    (hlike : s.pool.Like pool) : t.pool.Like pool := by
  have hpool : t.pool = s.pool := (congrArg Decoder.pool h :)
  rwa [hpool]

end Decoder

namespace Decode

variable {namer : Namer}

/-! ### Steps that collect -/

/-- The step succeeds from everywhere, and changes nothing but what is collected. -/
def Collects (m : Decode Unit) : Prop := ∀ s, ∃ t, m s = .ok () t ∧ t.bare = s.bare

namespace Collects

/-- A step that collects succeeds from everywhere, so if it was taken then the bare state is what it
was. -/
theorem bare_of_ok {m : Decode Unit} (hm : Collects m) {s t : Decoder} (h : m s = .ok () t) :
    t.bare = s.bare := by
  obtain ⟨u, hrun, hbare⟩ := hm s
  cases hrun.symm.trans h
  exact hbare

theorem pure : Collects (Pure.pure ()) := fun s => ⟨s, rfl, rfl⟩

theorem modify {f : Decoder → Decoder} (h : ∀ s, (f s).bare = s.bare) : Collects (modify f) :=
  fun s => ⟨f s, rfl, h s⟩

/-- Steps that collect, one after the other, are a step that collects. -/
theorem bind {m : Decode Unit} {f : Unit → Decode Unit} (hm : Collects m)
    (hf : ∀ u, Collects (f u)) : Collects (m >>= f) := by
  intro s
  obtain ⟨t, hfirst, hbare⟩ := hm s
  obtain ⟨u, hrest, hbare'⟩ := hf () t
  exact ⟨u, EStateM.bind_eq hfirst hrest, hbare'.trans hbare⟩

/-- The session may serve to find a package, whose namer may answer as it likes. What is done then
must collect, whichever package it is. -/
theorem packageOf {type : TypeName} {f : Package → Decode Unit}
    (hf : ∀ package, Collects (f package)) :
    Collects (packageOf ⟨namer, none⟩ type >>= f) := by
  intro s
  obtain ⟨t, hrest, hbare⟩ := hf (namer.packageOf type s.session.table).1
    { s with session := { s.session with table := (namer.packageOf type s.session.table).2 } }
  exact ⟨t, EStateM.bind_eq rfl hrest, hbare⟩

theorem exposePackage (package : Package) (access : Access) :
    Collects (exposePackage package access) := by
  refine modify fun s => ?_
  split
  · simp only [Decoder.bare, Option.map_map]
    rfl
  · rfl

/-- To refer to a type is to collect it: its package is asked for, and the type and the package are
put down. -/
theorem refer (type : TypeName) (access : Access) : Collects (refer ⟨namer, none⟩ type access) := by
  rw [Decode.refer]
  split
  · exact pure
  refine packageOf fun package => ?_
  split
  · exact pure
  refine bind (modify fun _ => rfl) fun _ => bind (exposePackage package access) fun _ => ?_
  exact bind (modify fun _ => rfl) fun _ => modify fun _ => rfl

/-- To expose a type is to collect its package, or to do nothing where nothing can be exposed. -/
theorem expose (type : TypeName) (access : Access) :
    Collects (expose ⟨namer, none⟩ type access) := by
  intro s
  change ∃ t, (if s.api.isSome ∧ access.isVisible then _ else _ : Decode Unit) s = _ ∧ _
  split
  · refine packageOf (fun package => ?_) s
    split
    · exact pure
    · exact exposePackage package access
  · exact pure s

/-- The classes that a text names are collected one after the other. -/
theorem mentions (access : Access) (names : List String) :
    Collects (names.forM (mention ⟨namer, none⟩ access)) := by
  induction names with
  | nil => exact pure
  | cons name names ih =>
    exact bind (bind (modify fun _ => rfl) fun _ => refer _ access) fun _ => ih

end Collects

/-- All classes that a text names are collected, and then it may turn out to be malformed. The bare
state is the same in both cases, so what is collected of a text does not decide whether it is
accepted. -/
theorem referText_bare (text : String) (access : Access) (s : Decoder) :
    ∃ t : Decoder, t.bare = s.bare ∧ referText ⟨namer, none⟩ text access s =
      match (Signature.scan text).fault with
      | none => .ok () t
      | some fault => .error fault t := by
  obtain ⟨t, hrun, hbare⟩ := Collects.mentions access (Signature.scan text).names s
  refine ⟨t, hbare, ?_⟩
  cases hfault : (Signature.scan text).fault with
  | none =>
    refine EStateM.bind_eq hrun ?_
    rw [hfault]
    rfl
  | some fault =>
    refine EStateM.bind_eq hrun ?_
    rw [hfault]
    rfl

/-- Whether the text at an index of the pool follows the grammar of descriptors. -/
def checkDescriptor (index : UInt16) (pool : Pool) : Except Fault Unit := do
  match (Signature.scan (← pool.utf8 index)).fault with
  | none => return
  | some fault => throw fault

/-- A descriptor at an index is looked up, and then it is a text. Whether that fails depends on the
pool alone. -/
theorem referDescriptor_bare (index : UInt16) (access : Access) (s : Decoder) :
    ∃ t : Decoder, t.bare = s.bare ∧ referDescriptor ⟨namer, none⟩ index access s =
      match checkDescriptor index s.pool with
      | .ok _ => .ok () t
      | .error fault => .error fault t := by
  change ∃ t : Decoder, t.bare = s.bare ∧ EStateM.bind (utf8 index) _ s = _
  rw [EStateM.bind, utf8, ask, checkDescriptor]
  cases s.pool.utf8 index with
  | error fault => exact ⟨s, rfl, rfl⟩
  | ok text =>
    obtain ⟨t, hbare, hrun⟩ := @referText_bare namer text access s
    refine ⟨t, hbare, hrun.trans ?_⟩
    change _ = match (match (Signature.scan text).fault with
      | none => pure ()
      | some fault => throw fault : Except Fault Unit) with
      | .ok _ => _
      | .error fault => _
    cases (Signature.scan text).fault <;> rfl

theorem question_checkDescriptor (index : UInt16) : Pool.Question (checkDescriptor index) := by
  refine (Pool.Question.utf8 index).bind fun text => ?_
  cases hfault : (Signature.scan text).fault with
  | none => exact .pure ()
  | some fault => exact .throw (Signature.isInternal_of_scan hfault)

/-- A class constant is marked, and collected if it was not marked before. This succeeds from
everywhere: an index that is none of a class is passed over. -/
theorem referClassConstant_bare (index : UInt16) (s : Decoder) :
    ∃ t : Decoder, referClassConstant ⟨namer, none⟩ index s = .ok () t ∧
      t.bare = (s.marked index).bare := by
  have hname (name : Option String) : Collects (referName ⟨namer, none⟩ name) := by
    cases name with
    | some name => exact Collects.refer _ 0
    | none => exact Collects.pure
  obtain ⟨t, hrun, hbare⟩ := hname (s.pool.markReferred index).1 (s.marked index)
  exact ⟨t, by rw [referClassConstant_eq]; exact EStateM.bind_eq rfl hrun, hbare⟩

/-- The constants that an instruction marks. -/
def markedBy (s : Decoder) : Action → Decoder
  | .load index | .type index => s.marked index
  | _ => s

/-- To load the class that a constant names succeeds from everywhere, whether it names one or not.
Nothing but what is collected changes. -/
theorem loadClass_bare (constant : UInt16) (s : Decoder) :
    ∃ last t, loadClass ⟨namer, none⟩ constant s = .ok last t ∧ t.bare = s.bare := by
  cases htext : s.pool.stringConstant constant with
  | none =>
    refine ⟨some constant, s, EStateM.bind_eq rfl ?_, rfl⟩
    rw [htext]
    rfl
  | some text =>
    by_cases hnames : Handlers.namesClass text
    · obtain ⟨t, hrun, hbare⟩ := @Collects.refer namer (.ofDotted text) 0 s
      refine ⟨none, t, EStateM.bind_eq rfl ?_, hbare⟩
      rw [htext]
      dsimp only
      rw [if_pos hnames]
      exact EStateM.bind_eq hrun rfl
    · refine ⟨none, s, EStateM.bind_eq rfl ?_, rfl⟩
      rw [htext]
      dsimp only
      rw [if_neg hnames]
      rfl

/-- To act on an instruction succeeds from everywhere, whatever methods load classes. Beyond what is
collected only a mark in the pool can change. -/
theorem act_bare (targets : Targets) (last : Option UInt16) (action : Action) (s : Decoder) :
    ∃ last' t, (handlers ⟨namer, none⟩).act targets last action s = .ok last' t ∧
      t.bare = (markedBy s action).bare := by
  have hcall (index : UInt16) : (handlers ⟨namer, none⟩).method index s = .ok () s := by
    rw [method_eq_pure]
    rfl
  have hconstant (index : UInt16) (last' : Option UInt16) :
      ∃ t, (referClassConstant ⟨namer, none⟩ index >>= fun _ => pure last') s = .ok last' t ∧
        t.bare = (s.marked index).bare := by
    obtain ⟨t, hrun, hbare⟩ := @referClassConstant_bare namer index s
    exact ⟨t, EStateM.bind_eq hrun rfl, hbare⟩
  cases action with
  | load index => exact ⟨some index, hconstant index _⟩
  | type index => exact ⟨none, hconstant index _⟩
  | invoke index => exact ⟨last, s, EStateM.bind_eq (hcall index) rfl, rfl⟩
  | invokeStatic index =>
    by_cases hloads : targets.contain index = true ∧ last.isSome = true
    · obtain ⟨htarget, hlast⟩ := hloads
      obtain ⟨constant, rfl⟩ := Option.isSome_iff_exists.1 hlast
      obtain ⟨last', t, hrun, hbare⟩ := @loadClass_bare namer constant s
      refine ⟨last', t, ?_, hbare⟩
      rw [act_invokeStatic _ htarget]
      exact EStateM.bind_eq (hcall index) hrun
    · refine ⟨last, s, ?_, rfl⟩
      rw [act_invokeStatic_of_not _ hloads]
      exact EStateM.bind_eq (hcall index) rfl
  | widened => exact ⟨last, s, rfl, rfl⟩
  | other => exact ⟨none, s, rfl, rfl⟩

/-! ### Properties that collecting does not break -/

/-- A property of states that does not depend on the input, nor on what was collected, nor on which
constants are marked. -/
structure Lasting (I : Decoder → Prop) : Prop where
  bare {s t : Decoder} : I s → t.bare = s.bare → I t
  withInput {s : Decoder} (input : Input) : I s → I { s with input := input }
  marked {s : Decoder} (index : UInt16) : I s → I (s.marked index)

namespace Lasting

variable {I : Decoder → Prop}

/-- A property that lasts is kept by every step that collects, for it speaks of nothing but the bare
state. -/
theorem collects (hI : Lasting I) {m : Decode Unit} (hm : Collects m) :
    Keeps I (fun _ => True) m := by
  intro s hs
  obtain ⟨t, hrun, hbare⟩ := hm s
  rw [hrun]
  exact hI.bare hs hbare

/-- It is kept when a class constant is met, which marks it: the property must not speak of
marks. -/
theorem constant (hI : Lasting I) (index : UInt16) :
    Keeps I (fun _ => True) (referClassConstant ⟨namer, none⟩ index) := by
  intro s hs
  obtain ⟨t, hrun, hbare⟩ := @referClassConstant_bare namer index s
  rw [hrun]
  exact hI.bare (hI.marked index hs) hbare

theorem take (hI : Lasting I) (n : Nat) : Keeps I (fun _ => True) (read (Input.take n)) :=
  .read (fun _ input hs => hI.withInput input hs) fun _ _ _ _ => trivial

theorem within (hI : Lasting I) {α : Type} {bytes : Bytes} {m : Decode α}
    (hm : Keeps I (fun _ => True) m) :
    Keeps I (fun _ => True) (within bytes m) :=
  Keeps.within (fun _ input hs => hI.withInput input hs) hm

/-- Questions to the pool change nothing at all, so any property is kept by them. -/
theorem asking (I : Decoder → Prop) : Asking fun m _ => Keeps I (fun _ => True) m where
  pure := .pure
  bind := .bind
  throw _ := .throw trivial
  ask _ := .ask fun _ _ _ => trivial

theorem naming (hI : Lasting I) :
    Naming ⟨namer, none⟩ ⟨namer, none⟩ fun m _ => Keeps I (fun _ => True) m where
  toAsking := asking I
  named _ := .modify fun _ hs => hs
  refer type access := hI.collects (.refer type access)

/-- The references of the pool keep the property: they collect classes, and mark the constants that
they meet. -/
theorem pooled (hI : Lasting I) :
    Pooled ⟨namer, none⟩ ⟨namer, none⟩ fun m _ => Keeps I (fun _ => True) m where
  toReferring := hI.naming.referring
  constant := hI.constant
  lookPool hk := .look fun s => hk s s (.refl _)

/-- So does a walk through a method body: it looks at instructions, collects classes, and marks
constants. -/
theorem walking (hI : Lasting I) :
    Walking ⟨namer, none⟩ ⟨namer, none⟩ fun m _ => Keeps I (fun _ => True) m where
  toReferring := hI.naming.referring
  constant := hI.constant
  call index := by
    rw [method_eq_pure]
    exact .pure ()
  loadClass := hI.naming.loadClass fun hk => .look fun s => hk s s rfl

theorem annotationType (hI : Lasting I) (retention : Retention) (access : Access) (index : UInt16) :
    Keeps I (fun _ => True) (annotationType ⟨namer, none⟩ retention access index) :=
  hI.naming.annotationType (d := ⟨namer, none⟩)
    (fun type access => hI.collects (.expose type access)) retention access index

/-- A descriptor that is tried out keeps the property also if it turns out to be malformed. -/
theorem attempt (hI : Lasting I) (index : UInt16) (access : Access) :
    Keeps I (fun _ => True) (succeeds (referDescriptor ⟨namer, none⟩ index access)) :=
  .succeeds (hI.naming.referDescriptor (d := ⟨namer, none⟩) index access)

end Lasting

/-! ### Relations that collecting does not break -/

/-- Both steps succeed, with the same value, or both fail. -/
abbrev Concurs (R : Decoder → Decoder → Prop) {α : Type} (m m' : Decode α) : Prop :=
  Simulates (fun _ _ => True) R m m'

/-- A relation of states that have the same input, and the same pool but for the marks. It
depends neither on what was collected nor on which constants are marked. -/
structure Lenient (R : Decoder → Decoder → Prop) : Prop extends SameInput R where
  pool {s t : Decoder} : R s t → s.pool.Like t.pool
  bare {s s' t t' : Decoder} : R s t → s'.bare = s.bare → t'.bare = t.bare → R s' t'
  marked {s t : Decoder} (index : UInt16) : R s t → R (s.marked index) (t.marked index)

/-- The states are at the same place as well, and what attributes tell does not break the
relation. -/
structure Local (R : Decoder → Decoder → Prop) : Prop extends Lenient R where
  last {s t : Decoder} : R s t → s.last = t.last
  method {s t : Decoder} : R s t →
    s.record.bind (·.methods.back?) = t.record.bind (·.methods.back?)
  isSome_record {s t : Decoder} : R s t → s.record.isSome = t.record.isSome
  updateRecord {s t : Decoder} {f : Record → Record} : Record.Marginal f → R s t →
    R { s with record := s.record.map f } { t with record := t.record.map f }
  updateLast {s t : Decoder} {last : LastMember} {f : Member → Member} :
    (∀ member, (f member).outline = member.outline) → s.last = some last → R s t →
    R { s with record := s.record.map (·.updateLast last f) }
      { t with record := t.record.map (·.updateLast last f) }

namespace Lenient

variable {R : Decoder → Decoder → Prop} {namer' : Namer}

/-- Where the first decoding collects, the second one may collect something else: a lenient relation
does not notice. -/
theorem collects (hR : Lenient R) {m m' : Decode Unit} (hm : Collects m) (hm' : Collects m') :
    Concurs R m m' := by
  intro s t hst
  obtain ⟨s', hs, hbare⟩ := hm s
  obtain ⟨t', ht, hbare'⟩ := hm' t
  rw [hs, ht]
  exact .ok (hR.bare hst hbare hbare')

/-- Both ask their pools the same, and get the same answer, since the pools differ in marks only. -/
theorem ask (hR : Lenient R) {α : Type} {question : Pool → Except Fault α}
    (h : Pool.Question question) : Concurs R (ask question) (ask question) := by
  intro s t hst
  have hsame := h.like _ _ (hR.pool hst)
  rw [Decode.ask, Decode.ask]
  cases hs : question s.pool <;> cases ht : question t.pool <;> rw [hs, ht] at hsame <;> cases hsame
  · exact .error trivial hst
  · exact .ok hst

theorem naming (hR : Lenient R) : Naming ⟨namer, none⟩ ⟨namer', none⟩ (Concurs R) where
  pure := Simulates.pure
  bind := Simulates.bind
  throw _ := Simulates.throw trivial
  ask := hR.ask
  named _ := fun _ _ hst => .ok hst
  refer type access := hR.collects (.refer type access) (.refer type access)

/-- Both meet a class constant. It may be marked for one of them and not for the other, which is a
difference in what is collected. -/
theorem constant (hR : Lenient R) (index : UInt16) :
    Concurs R (referClassConstant ⟨namer, none⟩ index)
      (referClassConstant ⟨namer', none⟩ index) := by
  intro s t hst
  obtain ⟨s', hs, hbare⟩ := @referClassConstant_bare namer index s
  obtain ⟨t', ht, hbare'⟩ := @referClassConstant_bare namer' index t
  rw [hs, ht]
  exact .ok (hR.bare (hR.marked index hst) hbare hbare')

/-- Whatever the pool names concurs: both decoders go through the same slots, and refer to the same
classes there. -/
theorem pooled (hR : Lenient R) : Pooled ⟨namer, none⟩ ⟨namer', none⟩ (Concurs R) where
  toReferring := hR.naming.referring
  constant := hR.constant
  lookPool hk s t hst := hk s t (hR.pool hst) s t hst

/-- Both stop for the same reason, or do not stop. -/
theorem halt (fault : Option Fault) :
    Concurs R (Handlers.halt fault) (Handlers.halt fault) := by
  cases fault with
  | none => exact Simulates.pure ()
  | some fault => exact Simulates.throw trivial

/-- What instructions do can be told apart by nothing but what is collected. So the two walks need
not know the same targets, nor the same last constant. -/
theorem follow (hR : Lenient R) (targets targets' : Targets) (last last' : Option UInt16)
    (actions : List Action) (fault : Option Fault) :
    Concurs R
      ((handlers ⟨namer, none⟩).follow targets last actions >>= fun _ => Handlers.halt fault)
      ((handlers ⟨namer', none⟩).follow targets' last' actions >>= fun _ =>
        Handlers.halt fault) := by
  induction actions generalizing last last' with
  | nil => exact halt fault
  | cons action actions ih =>
    intro s t hst
    obtain ⟨next, s', hs, hbare⟩ := @act_bare namer targets last action s
    obtain ⟨next', t', ht, hbare'⟩ := @act_bare namer' targets' last' action t
    have hmarked : R (markedBy s action) (markedBy t action) := by
      cases action with
      | load index | type index => exact hR.marked index hst
      | _ => exact hst
    rw [Handlers.follow_cons, Handlers.follow_cons, bind_assoc, bind_assoc, EStateM.bind_of_ok hs,
      EStateM.bind_of_ok ht]
    exact ih next next' s' t' (hR.bare hmarked hbare hbare')

/-- **Walks through a method body concur**, whatever methods they take to load classes. They read
the same instructions, and stop at the same fault. -/
theorem walk (hR : Lenient R) (code : Bytes) :
    Concurs R (get >>= fun s => (handlers ⟨namer, none⟩).walk s.targets code)
      (get >>= fun s => (handlers ⟨namer', none⟩).walk s.targets code) := by
  intro s t hst
  change Alike _ R ((handlers ⟨namer, none⟩).walk s.targets code s)
    ((handlers ⟨namer', none⟩).walk t.targets code t)
  rw [Handlers.walk_eq, Handlers.walk_eq]
  exact hR.follow s.targets t.targets none none _ _ s t hst

end Lenient

namespace Local

variable {R : Decoder → Decoder → Prop} {namer' : Namer}

/-- A change of the current member is noticed by neither, if it leaves the outline of the member as
it is. -/
theorem updateMember (hR : Local R) {f : Member → Member}
    (hf : ∀ member, (f member).outline = member.outline) :
    Concurs R (updateMember f) (updateMember f) := by
  refine Simulates.modify fun s t hst => ?_
  have hsame := hR.last hst
  split
  · rename_i last hs
    rw [hs] at hsame
    split
    · rename_i last' ht
      obtain rfl : last = last' := Option.some.inj (hsame.trans ht)
      exact hR.updateLast hf hs hst
    · rename_i ht
      exact nomatch hsame.trans ht
  · rename_i hs
    rw [hs] at hsame
    rw [← hsame]
    exact hst

theorem elementary (hR : Local R) :
    Elementary ⟨namer, none⟩ ⟨namer', none⟩ (Concurs R) where
  toNaming := hR.naming
  take _ := Simulates.read (fun _ => trivial) hR.toSameInput _
  within := Simulates.within hR.toSameInput
  look hk s t hst := by
    refine hk s t ?_ s t hst
    rw [Decoder.glance, Decoder.glance, hR.last hst, hR.method hst,
      Pool.Question.stringConstant (hR.pool hst)]
  tell _ := fun _ _ hst => .ok hst
  expose type access := hR.collects (.expose type access) (.expose type access)
  constant := hR.constant
  attempt index access := (hR.naming.referDescriptor index access).succeeds
  call index := by
    rw [method_eq_pure, method_eq_pure]
    exact Simulates.pure ()
  updateRecord hf := .updateRecord trivial hR.isSome_record (hR.updateRecord hf)
  updateMember hf := hR.updateMember hf.outline

/-- All readers of attributes concur, by induction over them, if the relation is a local one. -/
theorem lockstep (hR : Local R) : Lockstep ⟨namer, none⟩ ⟨namer', none⟩ (Concurs R) :=
  hR.elementary.lockstep

theorem signatureAttribute (hR : Local R) (site : Site) (access : Access) :
    Concurs R (signatureAttribute ⟨namer, none⟩ site access)
      (signatureAttribute ⟨namer', none⟩ site access) :=
  hR.lockstep.signatureAttribute (fun _ => hR.updateMember fun _ => rfl) site access

theorem code (hR : Local R) : Concurs R (code ⟨namer, none⟩) (code ⟨namer', none⟩) :=
  hR.lockstep.code hR.signatureAttribute hR.walk

/-- **To act on a table of attributes concurs**, if to act on method bodies does. The kind of each
attribute is the same for both, since the texts of the pools are. -/
theorem attributesOf (hR : Local R) {onCode onCode' : Decode Unit}
    (hcode : Concurs R onCode onCode')
    (site : Site) (access : Access) (raws : List RawAttribute) :
    Concurs R (attributesOf ⟨namer, none⟩ onCode site access raws)
      (attributesOf ⟨namer', none⟩ onCode' site access raws) :=
  hR.lockstep.attributesOf hR.signatureAttribute hcode site access raws

end Local

end Decode

end ClassFile
