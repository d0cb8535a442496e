import ClassFile.Proofs.Memberwise

/-!
# What a decoding keeps for itself

A decoder has three parts that something else can see or change: the bytes it reads, the
session it shares with other decodings, and the notes of its listener. The rest is its
`core`. Nothing in a decoding depends on how the core is used, as long as both of two runs
use it in the same way; so a relation between steps that is indifferent to the core has to
be looked at in five places only, those where a decoding reads bytes, asks for a package,
tells its listener something, fills the pool, or tries out a signature.

`ClassFile.Decode.Oblivious` is the list of these places. A relation that satisfies it relates a
decoding to itself as far as no method is called, to begin with from the magic number to the name of
the class (`ClassFile.Decode.Oblivious.classHeader`). If it respects calls as well, then it relates
all that follows (`ClassFile.Decode.Parametric.classBody`).
-/

namespace ClassFile

/-- What nobody but the decoding itself sees. -/
structure Decoder.Core where
  pool : Pool
  references : TypeSet
  imports : PackageSet
  api : Option PackageSet
  record : Option Record
  last : Option LastMember
  walking : Bool
  targets : Targets

/-- What a decoder keeps for itself. -/
def Decoder.core (s : Decoder) : Decoder.Core where
  pool := s.pool
  references := s.references
  imports := s.imports
  api := s.api
  record := s.record
  last := s.last
  walking := s.walking
  targets := s.targets

namespace Decoder

/-- A decoder with another core. -/
def withCore (s : Decoder) (core : Core) : Decoder where
  input := s.input
  pool := core.pool
  session := s.session
  references := core.references
  imports := core.imports
  api := core.api
  record := core.record
  last := core.last
  walking := core.walking
  targets := core.targets
  notes := s.notes

end Decoder

namespace Decode

/-- A relation between steps that is indifferent to the core of a decoder, as far as
collecting references goes. -/
structure Indifferent (c d : Context) (P : ∀ {α : Type}, Decode α → Decode α → Prop) :
    Prop where
  pure {α : Type} (a : α) : P (Pure.pure a : Decode α) (Pure.pure a)
  bind {α β : Type} {m m' : Decode α} {f f' : α → Decode β} :
    P m m' → (∀ a, P (f a) (f' a)) → P (m >>= f) (m' >>= f')
  throw {α : Type} (fault : Fault) :
    P (MonadExcept.throw fault : Decode α) (MonadExcept.throw fault)
  look {α : Type} {k k' : Decoder → Decode α} :
    (∀ s t, s.core = t.core → P (k s) (k' t)) → P (get >>= k) (get >>= k')
  change (g : Decoder.Core → Decoder.Core) :
    P (modify fun s => s.withCore (g s.core)) (modify fun s => s.withCore (g s.core))
  packageOf (type : TypeName) : P (packageOf c type) (packageOf d type)
  tell (event : Event) : P (tell c event) (tell d event)

/-- A relation between steps that is indifferent to the core of a decoder, as far as no method is
called. -/
structure Oblivious (c d : Context) (P : ∀ {α : Type}, Decode α → Decode α → Prop) : Prop
    extends Indifferent c d P where
  take (n : Nat) : P (read (Input.take n)) (read (Input.take n))
  within {bytes : Bytes} {m m' : Decode Unit} : P m m' → P (within bytes m) (within bytes m')
  readPool : P readPool readPool
  attempt (index : UInt16) (access : Access) :
    P (succeeds (referDescriptor c index access)) (succeeds (referDescriptor d index access))

/-- **A relation between steps that is indifferent to the core of a decoder.** -/
structure Parametric (c d : Context) (P : ∀ {α : Type}, Decode α → Decode α → Prop) : Prop
    extends Oblivious c d P where
  call (index : UInt16) : P ((handlers c).method index) ((handlers d).method index)

/-- Goes on with an answer. -/
def answer {α : Type} : Except Fault α → Decode α
  | .ok value => pure value
  | .error fault => throw fault

/-- To ask the pool is to look at the core, and to go on with what is found, be it a value or a
fault. -/
theorem ask_eq {α : Type} (question : Pool → Except Fault α) :
    ask question = get >>= fun s => answer (question s.pool) := by
  funext s
  change _ = answer (question s.pool) s
  rw [ask]
  cases question s.pool <;> rfl

/-- Refers to a class that a constant was found to name. -/
def referName (context : Context) : Option String → Decode Unit
  | some name => refer context (.ofText name) 0
  | none => pure ()

/-- To meet a class constant is to set its mark in the core, and to refer to the class if it had
none. -/
theorem referClassConstant_eq (context : Context) (index : UInt16) :
    referClassConstant context index = (modifyGet fun s =>
      ((s.pool.markReferred index).1, { s with pool := (s.pool.markReferred index).2 })) >>=
        referName context := by
  rw [referClassConstant]
  refine bind_congr fun name => ?_
  cases name <;> rfl

/-- Nothing is done about a method that is called if nobody listens. That is what makes decodings
without a listener simple, for the walks look up no method then. -/
theorem method_eq_pure (namer : Namer) (index : UInt16) :
    (handlers ⟨namer, none⟩).method index = pure () := by
  dsimp only [handlers]
  exact if_neg fun h => nomatch h.2

namespace Indifferent

variable {c d : Context} {P : ∀ {α : Type}, Decode α → Decode α → Prop}

/-! ### Steps within the core -/

/-- A question about the pool is a look at the core. -/
theorem ask (h : Indifferent c d P) {α : Type} (question : Pool → Except Fault α) :
    P (ask question) (ask question) := by
  rw [ask_eq]
  refine h.look fun s t hst => ?_
  rw [show s.pool = t.pool from congrArg Decoder.Core.pool hst]
  cases question t.pool with
  | ok value => exact h.pure value
  | error fault => exact h.throw fault

/-- So is the record, which is missing until the name of the class is known. -/
theorem record (h : Indifferent c d P) : P record record := by
  refine h.look fun s t hst => ?_
  rw [show s.record = t.record from congrArg Decoder.Core.record hst]
  cases t.record with
  | some record => exact h.pure record
  | none => exact h.throw .noHeader

theorem updateRecord (h : Indifferent c d P) (f : Record → Record) :
    P (updateRecord f) (updateRecord f) :=
  h.bind h.record fun record => h.change fun core => { core with record := some (f record) }

theorem updateMember (h : Indifferent c d P) (f : Member → Member) :
    P (updateMember f) (updateMember f) := by
  let g (core : Decoder.Core) : Decoder.Core :=
    core.last.elim core fun last => { core with record := core.record.map (·.updateLast last f) }
  have hf : Decode.updateMember f = modify fun s => s.withCore (g s.core) := by
    refine congrArg modify (funext fun s => ?_)
    obtain ⟨input, pool, session, references, imports, api, record, last, _, _, _⟩ := s
    cases last <;> rfl
  rw [hf]
  exact h.change g

/-! ### References -/

/-- To expose a package is a change of the core, in the set of packages that can be seen. -/
theorem exposePackage (h : Indifferent c d P) (package : Package) (access : Access) :
    P (exposePackage package access) (exposePackage package access) := by
  rw [Decode.exposePackage]
  split
  · exact h.change fun core => { core with api := core.api.map (·.insert package) }
  · exact h.change id

/-- To refer to a type is to ask for its package, which goes beyond the core, and to take it down in
the core. -/
theorem refer (h : Indifferent c d P) (type : TypeName) (access : Access) :
    P (refer c type access) (refer d type access) := by
  rw [Decode.refer, Decode.refer]
  split
  · exact h.pure ()
  · refine h.bind (h.packageOf _) fun package => ?_
    split
    · exact h.pure ()
    · refine h.bind (h.change fun core =>
        { core with references := core.references.insert type.referent }) fun _ => ?_
      refine h.bind (h.exposePackage package access) fun _ => ?_
      refine h.bind (h.change fun core =>
        { core with imports := core.imports.insert package }) fun _ => ?_
      exact h.tell _

/-- To expose a type asks for a package likewise, if what exposes it can be seen. -/
theorem expose (h : Indifferent c d P) (type : TypeName) (access : Access) :
    P (expose c type access) (expose d type access) := by
  refine h.look fun s t hst => ?_
  rw [show s.api = t.api from congrArg Decoder.Core.api hst]
  split
  · refine h.bind (h.packageOf type) fun package => ?_
    split
    · exact h.pure ()
    · exact h.exposePackage package access
  · exact h.pure ()

/-- A class constant is met in the core, and the class behind it is referred to. -/
theorem referClassConstant (h : Indifferent c d P) (index : UInt16) :
    P (referClassConstant c index) (referClassConstant d index) := by
  let g (core : Decoder.Core) : Decoder.Core :=
    { core with pool := (core.pool.markReferred index).2 }
  have hmark (context : Context) : Decode.referClassConstant context index = get >>= fun s =>
      (modify fun s => s.withCore (g s.core)) >>= fun _ =>
        referName context (s.pool.markReferred index).1 := referClassConstant_eq context index
  rw [hmark c, hmark d]
  refine h.look fun s t hst => h.bind (h.change g) fun _ => ?_
  rw [show s.pool = t.pool from congrArg Decoder.Core.pool hst]
  cases (t.pool.markReferred index).1 with
  | some name => exact h.refer _ 0
  | none => exact h.pure ()

/-- Names of all kinds are found in the pool and referred to, so what names types is respected. -/
theorem naming (h : Indifferent c d P) : Naming c d P where
  pure := h.pure
  bind := h.bind
  throw _ := h.throw _
  ask _ := h.ask _
  named _ := h.tell _
  refer := h.refer

/-- The parts of a class are put on record in the core. -/
theorem recording (h : Indifferent c d P) : Recording c d P where
  toReferring := h.naming.referring
  lookScene hk := h.look fun s t hst => hk s t <|
    congrArg (fun core : Decoder.Core =>
      (⟨core.pool, core.record, core.last, core.walking, core.targets⟩ : Decoder.Scene)) hst
  record := h.record
  updateHeaded _ := h.updateRecord _
  announce _ := h.tell _
  attend g := h.change fun core =>
    let attention := g ⟨core.pool, core.record, core.last, core.walking, core.targets⟩
    { core with
      last := attention.last, walking := attention.walking, targets := attention.targets }

/-- The record gets what was collected, which is in the core. -/
theorem finish (h : Indifferent c d P) : P finish finish := by
  refine h.look fun s t hst => ?_
  have hrecord : s.record = t.record := congrArg Decoder.Core.record hst
  have hreferences : s.references = t.references := congrArg Decoder.Core.references hst
  have himports : s.imports = t.imports := congrArg Decoder.Core.imports hst
  have hapi : s.api = t.api := congrArg Decoder.Core.api hst
  rw [hrecord, hreferences, himports, hapi]
  cases t.record with
  | some record => exact h.pure _
  | none => exact h.throw .noRecord

/-- The references of the pool come before. They are found slot by slot, in the entries of the
core. -/
theorem pooled (h : Indifferent c d P) : Pooled c d P where
  toReferring := h.naming.referring
  constant := h.referClassConstant
  lookPool hk := h.look fun s t hst => hk s t <| by
    rw [show s.pool = t.pool from congrArg Decoder.Core.pool hst]
    exact .refl _

/-- A class is opened in the core, with the names that its header gives it. -/
theorem openClass (h : Indifferent c d P) (record : Record) :
    P (openClass c record) (openClass d record) := by
  refine h.bind (h.change fun core =>
    { core with api := if record.access.isPublic then some ∅ else none }) fun _ => ?_
  refine h.bind (h.refer record.name _) fun _ => ?_
  exact h.change fun core => { core with record := some record }

/-- A method that is called is looked up under both contexts, or under none. This is the only step
that depends on whether somebody listens. -/
theorem call (h : Indifferent c d P) (hlistening : c.listener.isSome = d.listener.isSome)
    (index : UInt16) :
    P ((handlers c).method index) ((handlers d).method index) := by
  dsimp only [handlers]
  rw [hlistening]
  split
  · exact h.bind (h.ask _) fun method => h.tell _
  · exact h.pure ()

/-- A glance does not go beyond the core, and leaves out the marks and what was collected. -/
theorem lookGlance (h : Indifferent c d P) {α : Type} {k k' : Decoder → Decode α}
    (hk : ∀ s t, s.glance = t.glance → P (k s) (k' t)) : P (get >>= k) (get >>= k') :=
  h.look fun s t hst => hk s t <|
    congrArg (fun core : Decoder.Core => (⟨core.last, core.record.bind (·.methods.back?),
      core.pool.stringConstant⟩ : Decoder.Glance)) hst

/-- What is told of an attribute is put on record in the core. -/
theorem noting (h : Indifferent c d P) : Noting c d P where
  toAsking := h.naming.toAsking
  look hk := h.lookGlance fun s t hst => hk s t (Decoder.glimpse_eq hst)
  tell _ := h.tell _
  updateRecord _ := h.updateRecord _
  updateMember _ := h.updateMember _
  keepDefaultOf := h.naming.keepDefaultOf h.lookGlance (fun _ => h.tell _) fun _ => h.updateMember _

/-- Walks do not look at anything but the core. What is done about a method that is called is left
open, since it is not the same with a listener and without one. -/
theorem walking (h : Indifferent c d P)
    (hcall : ∀ index, P ((handlers c).method index) ((handlers d).method index)) :
    Walking c d P where
  toReferring := h.naming.referring
  constant := h.referClassConstant
  call := hcall
  loadClass := h.naming.loadClass fun hk =>
    h.lookGlance fun s t hst => hk s t (Decoder.glimpse_eq hst)

end Indifferent

namespace Oblivious

variable {c d : Context} {P : ∀ {α : Type}, Decode α → Decode α → Prop}

/-- Whatever is indifferent to the core is respected by everything after the name of a class, as far
as no method is called. It is what a decoding with a listener and one without have in common. -/
theorem fieldwise (h : Oblivious c d P) : Fieldwise c d P :=
  { h.noting, h.recording with
    take := h.take
    within := h.within
    constant := h.referClassConstant
    keepInnerClass := fun _ => h.bind (h.tell _) fun _ => h.updateRecord _
    keepEnclosingMethod := fun _ => h.bind (h.tell _) fun _ => h.updateRecord _
    attempt := h.attempt
    annotationType := h.naming.annotationType h.expose
    sign := fun _ => h.updateMember _ }

theorem checkMagic (h : Oblivious c d P) : P checkMagic checkMagic := by
  refine h.bind h.fieldwise.u4 fun found => ?_
  split
  · exact h.throw (.badMagic found)
  · exact h.pure ()

/-- **Everything up to the name of a class** is respected: the magic number, the version, the pool
with its references, the flags and the name. No bodies have come by then. -/
theorem classHeader (h : Oblivious c d P) : P (classHeader c) (classHeader d) := by
  refine h.bind h.checkMagic fun _ => ?_
  refine h.bind h.fieldwise.u2 fun minor => h.bind h.fieldwise.u2 fun major => ?_
  refine h.bind (h.tell _) fun _ => h.bind h.readPool fun _ => ?_
  refine h.bind h.pooled.referPool fun _ => ?_
  refine h.look fun s t hst => ?_
  rw [show s.pool = t.pool from congrArg Decoder.Core.pool hst]
  refine h.bind h.fieldwise.u2 fun access => h.bind h.fieldwise.u2 fun nameIndex => ?_
  refine h.bind (h.fieldwise.classAt nameIndex) fun name => ?_
  exact h.bind (h.openClass _) fun _ => h.pure _

end Oblivious

namespace Parametric

variable {c d : Context} {P : ∀ {α : Type}, Decode α → Decode α → Prop}

/-- Where calls are respected too, so are method bodies, and with them all attributes of members. -/
theorem memberwise (h : Parametric c d P) : Memberwise c d P :=
  { h.fieldwise, h.walking h.call with }

/-- **Everything after the name of a class** is respected where calls are. Whether the pool has an
orphan is settled before, and is the same on both sides. -/
theorem classBody (h : Parametric c d P) (orphan : Bool) :
    P (classBody c orphan) (classBody d orphan) :=
  h.memberwise.classBody h.finish orphan

end Parametric

end Decode

end ClassFile
