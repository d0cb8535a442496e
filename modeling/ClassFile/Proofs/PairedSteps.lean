import ClassFile.Proofs.Acting
import ClassFile.Proofs.Completeness
import ClassFile.Proofs.Following
import ClassFile.Proofs.Gathering

/-!
# Decodings abreast

Two decodings of class files that differ in some parts, or of one class file of which the second
decoding passes over some parts, go through the other parts in the same way. While they do so they
are *abreast* (`ClassFile.Decoder.Abreast`): they have the same input, their records are of the same
class, and what they have gathered is related. How it is related is left open; it is enough that the
relation stays when both do the same (`ClassFile.Decoder.Gathered.Tandem`). What they attend to is
related too, for one of them may walk through method bodies and the other one not.

Here are the steps that both take, as far as the attributes
(`ClassFile.Decode.lockstep_abreast`, `ClassFile.Decode.attributesOf_abreast`).
-/

/-- Of two options that are related, the images are related if the functions respect the
relation. -/
theorem Option.Rel.map {α β : Type} {R : α → α → Prop} {R' : β → β → Prop} {f g : α → β}
    (h : ∀ x y, R x y → R' (f x) (g y)) {x y : Option α} (hxy : Option.Rel R x y) :
    Option.Rel R' (x.map f) (y.map g) := by
  cases hxy with
  | none => exact .none
  | some hxy => exact .some (h _ _ hxy)

/-- Two options that are related are both there, or both missing. -/
theorem Option.Rel.isSome_eq {α β : Type} {R : α → β → Prop} {x : Option α} {y : Option β}
    (h : Option.Rel R x y) : x.isSome = y.isSome := by
  cases h <;> rfl

/-- If one of two related options is there, so is the other. -/
theorem Option.Rel.exists_of_some {α β : Type} {R : α → β → Prop} {x : Option α} {y : Option β}
    (h : Option.Rel R x y) {a : α} (hx : x = Option.some a) : ∃ b, y = Option.some b ∧ R a b := by
  cases h with
  | none => cases hx
  | some hab =>
    cases hx
    exact ⟨_, rfl, hab⟩

namespace ClassFile

/-! ### Records of the same class -/

namespace Record

/-- A change that does not concern what is said of the class itself: one of its members, or of what
is put in when the decoding ends. -/
structure Besides (f : Record → Record) : Prop where
  backdrop (record : Record) : (f record).backdrop = record.backdrop
  has (record : Record) (trait : Trait) : (f record).Has trait ↔ record.Has trait

theorem besides_id : Besides id := ⟨fun _ => rfl, fun _ _ => .rfl⟩

/-- A change of the last member does not concern the class, whichever member is the last one. -/
theorem besides_updateLast (last : LastMember) (f : Member → Member) :
    Besides (updateLast last f) := by
  constructor <;> intros <;> cases last <;> rfl

/-- What is put in when the decoding ends does not concern the class: these are the references, the
imports and the interface that were collected on the way. -/
theorem besides_gathered (references : TypeSet) (imports : PackageSet) (api : Option PackageSet) :
    Besides fun record => { record with references, imports, api } :=
  ⟨fun _ => rfl, fun _ _ => .rfl⟩

/-- A change besides the class is one that keeps the heading of the class, and adds nothing to what
is noted of it. -/
theorem Besides.headed {f : Record → Record} (h : Besides f) : Headed f where
  name record := (congrArg Record.name (h.backdrop record) :)
  major record := (congrArg Record.major (h.backdrop record) :)
  minor record := (congrArg Record.minor (h.backdrop record) :)
  access record := (congrArg Record.access (h.backdrop record) :)
  keeps record trait := (h.has record trait).2
  adds record _ trait hnew := .inl ((h.has record trait).1 hnew)
  backdrop record := (h.backdrop record).trans (h.backdrop record.backdrop).symm
  annotationTypes record := Std.ExtTreeSet.ext_mem fun type => h.has record (.annotated type)

/-- A relation of records of the class of a name that stays if both change in the same way, or in
ways that do not concern the class. -/
class Tandem (Q : TypeName → Record → Record → Prop) : Prop where
  left {name : TypeName} {record other : Record} : Q name record other → record.name = name
  right {name : TypeName} {record other : Record} : Q name record other → other.name = name
  major {name : TypeName} {record other : Record} :
    Q name record other → record.major = other.major
  access {name : TypeName} {record other : Record} :
    Q name record other → record.access = other.access
  uniform {name : TypeName} {record other : Record} {f : Record → Record} : Uniform f →
    Q name record other → Q name (f record) (f other)
  besides {name : TypeName} {record other : Record} {f g : Record → Record} : Besides f →
    Besides g → Q name record other → Q name (f record) (g other)

/-- The records say the same in the header of the class, and the first has all the types of
annotations that the second has. -/
structure Resembles (name : TypeName) (record other : Record) : Prop where
  left : record.name = name
  right : other.name = name
  major : record.major = other.major
  access : record.access = other.access
  annotationTypes : ∀ type ∈ other.annotationTypes, type ∈ record.annotationTypes

namespace Resembles

variable {name : TypeName} {record other : Record} {f : Record → Record}

theorem refl (record : Record) : record.Resembles record.name record :=
  ⟨rfl, rfl, rfl, rfl, fun _ h => h⟩

/-- The first record may get types of annotations that the second does not get, and change in all
ways that do not depend on what is in it. -/
theorem uniform_left (hf : Uniform f) (h : record.Resembles name other) :
    (f record).Resembles name other where
  left := (hf.name record).trans h.left
  right := h.right
  major := (hf.major record).trans h.major
  access := (hf.access record).trans h.access
  annotationTypes type htype := hf.keeps record (.annotated type) (h.annotationTypes type htype)

instance : Tandem Resembles where
  left h := h.left
  right h := h.right
  major h := h.major
  access h := h.access
  uniform {name record other f} hf h :=
    { left := (hf.name record).trans h.left
      right := (hf.name other).trans h.right
      major := by rw [hf.major, hf.major, h.major]
      access := by rw [hf.access, hf.access, h.access]
      annotationTypes := fun type htype => (hf.adds other record (.annotated type) htype).elim
        (fun hold => hf.keeps record (.annotated type) (h.annotationTypes type hold)) id }
  besides {name record other f g} hf hg h :=
    { left := (hf.headed.name record).trans h.left
      right := (hg.headed.name other).trans h.right
      major := by rw [hf.headed.major, hg.headed.major, h.major]
      access := by rw [hf.headed.access, hg.headed.access, h.access]
      annotationTypes := by
        rw [hf.headed.annotationTypes, hg.headed.annotationTypes]
        exact h.annotationTypes }

end Resembles

end Record

/-! ### Decoders abreast -/

namespace Decoder

/-- What a decoder attends to. -/
def attention (s : Decoder) : Attention := ⟨s.last, s.walking, s.targets⟩

/-- What the decoders have gathered, what they have on record of the class of a name, and what they
attend to are related. -/
structure Tied (G : Gathered → Gathered → Prop) (Q : TypeName → Record → Record → Prop)
    (name : TypeName) (V : Attention → Attention → Prop) (s t : Decoder) : Prop where
  gathered : G s.gathered t.gathered
  record : Option.Rel (Q name) s.record t.record
  attention : V s.attention t.attention

/-- The decoders stand at the same input as well. -/
structure InStep (G : Gathered → Gathered → Prop) (Q : TypeName → Record → Record → Prop)
    (name : TypeName) (V : Attention → Attention → Prop) (s t : Decoder) : Prop
    extends Tied G Q name V s t where
  input : s.input = t.input

/-- The decoders have records of the same class. -/
abbrev Near (G : Gathered → Gathered → Prop) (name : TypeName) (V : Attention → Attention → Prop) :
    Decoder → Decoder → Prop :=
  Tied G Record.Resembles name V

/-- They are in step. -/
abbrev Abreast (G : Gathered → Gathered → Prop) (name : TypeName)
    (V : Attention → Attention → Prop) : Decoder → Decoder → Prop :=
  InStep G Record.Resembles name V

/-- The decoders attend to these, and to nothing else. -/
def Attention.Are (a b x y : Attention) : Prop := x = a ∧ y = b

variable {namer : Namer} {G : Gathered → Gathered → Prop} {Q : TypeName → Record → Record → Prop}
  {name : TypeName} {V : Attention → Attention → Prop} {s t : Decoder}

/-- Decoders in step have the same input, so that what one of them reads the other one reads as
well. -/
theorem sameInput_abreast : Decode.SameInput (InStep G Q name V) where
  input h := h.input
  withInput _ h := ⟨⟨h.gathered, h.record, h.attention⟩, rfl⟩

/-- The records change, and nothing else: the decoders stay in step if the new records are
related. -/
theorem InStep.withRecord (h : s.InStep G Q name V t) {record other : Option Record}
    (hrecord : Option.Rel (Q name) record other) :
    InStep G Q name V { s with record := record } { t with record := other } :=
  ⟨⟨h.gathered, hrecord, h.attention⟩, h.input⟩

/-- What is attended to may be related in another way, as when one of the decoders begins to walk
through a body. -/
theorem InStep.imp {V' : Attention → Attention → Prop} (h : s.InStep G Q name V t)
    (hattention : V' s.attention t.attention) : s.InStep G Q name V' t :=
  ⟨⟨h.gathered, h.record, hattention⟩, h.input⟩

end Decoder

namespace Decode

open Decoder

variable {namer : Namer} {pool : Pool} {G : Gathered → Gathered → Prop}
  {Q : TypeName → Record → Record → Prop} {name : TypeName} {V : Attention → Attention → Prop}

/-- A change of a member does not concern the class. It succeeds, also where there is no member or
no record yet. -/
theorem updateMember_ok (f : Member → Member) (s : Decoder) : ∃ g, Record.Besides g ∧
    updateMember f s = .ok () { s with record := s.record.map g } := by
  obtain ⟨input, pool, session, references, imports, api, record, last, walking, targets, notes⟩ :=
    s
  cases last with
  | none => exact ⟨id, Record.besides_id, by rw [Option.map_id]; rfl⟩
  | some last => exact ⟨Record.updateLast last f, Record.besides_updateLast last f, rfl⟩

/-- To keep the default value of a method succeeds, and does not concern the class. -/
theorem keepDefaultOf_ok (value : Value) (s : Decoder) : ∃ g, Record.Besides g ∧
    keepDefaultOf ⟨namer, none⟩ value s = .ok () { s with record := s.record.map g } := by
  have hnone : ∃ g, Record.Besides g ∧
      (Pure.pure () : Decode Unit) s = .ok () { s with record := s.record.map g } :=
    ⟨id, Record.besides_id, by rw [Option.map_id]; rfl⟩
  by_cases hlast : s.last = some .method
  · cases hmethod : s.record.bind (·.methods.back?) with
    | none =>
      obtain ⟨g, hg, hrun⟩ := hnone
      refine ⟨g, hg, EStateM.bind_eq rfl ?_⟩
      rw [if_pos hlast]
      refine EStateM.bind_eq rfl ?_
      rw [hmethod]
      exact hrun
    | some method =>
      obtain ⟨g, hg, hrun⟩ :=
        updateMember_ok (fun member => { member with constant := some value }) s
      refine ⟨g, hg, EStateM.bind_eq rfl ?_⟩
      rw [if_pos hlast]
      refine EStateM.bind_eq rfl ?_
      rw [hmethod]
      exact EStateM.bind_eq rfl hrun
  · obtain ⟨g, hg, hrun⟩ := hnone
    refine ⟨g, hg, EStateM.bind_eq rfl ?_⟩
    rw [if_neg hlast]
    exact hrun

/-- Method bodies that neither decoder walks through may be anything: what is in them is passed over
on both sides. -/
theorem nothing_abreast (body body' : Bytes) :
    Follows Eq (InStep G Q name V) (within body (pure ())) (within body' (pure ())) := by
  intro s t value s' hst hrun
  cases hrun
  exact ⟨(), t, rfl, rfl, hst⟩

/-! ### Steps that both take -/

section Records

variable [Record.Tandem Q]

/-- Both decoders change their records in the same way, which does not depend on what is in them. -/
theorem updateRecord_abreast {f : Record → Record} (hf : Record.Uniform f) :
    Concurs (InStep G Q name V) (updateRecord f) (updateRecord f) := by
  exact .updateRecord trivial (fun hst => hst.record.isSome_eq) fun hst =>
    hst.withRecord (hst.record.map fun _ _ => Record.Tandem.uniform hf)

/-- Both decoders change their members, or do not, in whatever way. The relation between the records
does not look at members. -/
theorem besides_abreast {m : Decode Unit} (hm : ∀ s, ∃ g, Record.Besides g ∧
      m s = .ok () { s with record := s.record.map g }) : Concurs (InStep G Q name V) m m := by
  intro s t hst
  obtain ⟨f, hf, hs⟩ := hm s
  obtain ⟨g, hg, ht⟩ := hm t
  rw [hs, ht]
  exact .ok (hst.withRecord (hst.record.map fun _ _ h => Record.Tandem.besides hf hg h))

end Records

section Tandem

variable (hG : Gathered.Tandem namer pool G)
include hG

/-- Both gather the same, which keeps them in step since the relation between what they have
gathered stays then. -/
theorem gather_abreast (op : Gather) :
    Concurs (InStep G Q name V) (op.step ⟨namer, none⟩) (op.step ⟨namer, none⟩) := by
  intro s t hst
  rw [op.step_eq, op.step_eq]
  exact .ok ⟨⟨hG.both op hst.gathered, hst.record, hst.attention⟩, hst.input⟩

/-- The pools of decoders in step are the same but for the marks, as they were when both began with
the same pool. -/
theorem like_abreast {s t : Decoder} (hst : s.InStep G Q name V t) : s.pool.Like t.pool :=
  (hG.left hst.gathered).trans (hG.right hst.gathered).symm

/-- Names are asked for, told of and referred to by both. Texts come from pools that are the same
but for the marks. -/
theorem naming_abreast :
    Naming ⟨namer, none⟩ ⟨namer, none⟩ (Concurs (InStep G Q name V)) where
  pure := Simulates.pure
  bind := Simulates.bind
  throw _ := Simulates.throw trivial
  ask {_ question} hquestion s t hst := by
    have hsame := hquestion.like _ _ (like_abreast hG hst)
    rw [ask, ask]
    cases hs : question s.pool <;> cases ht : question t.pool <;> rw [hs, ht] at hsame <;>
      cases hsame
    · exact .error trivial hst
    · exact .ok hst
  named _ := fun _ _ hst => .ok hst
  refer type access := gather_abreast hG (.refer type access)

/-- The references of the pool are gathered by both, before the name of the class is known. -/
theorem pooled_abreast : Pooled ⟨namer, none⟩ ⟨namer, none⟩ (Concurs (InStep G Q name V)) where
  toReferring := (naming_abreast hG).referring
  constant index := gather_abreast hG (.constant index)
  lookPool hk s t hst := hk s t (like_abreast hG hst) s t hst

/-- An attribute is followed by another one of the same name, if what is in it is. For an attribute
without a name, or with one that is no text, both fail. -/
theorem attributeOf_of_body {onCode onCode' : Decode Unit} {site : Site} {access : Access}
    {index : UInt16} {body body' : Bytes}
    (h : ∀ text, pool.utf8 index = .ok text → Follows Eq (InStep G Q name V)
      (within body (attributeBody ⟨namer, none⟩ onCode site access (.ofName text)))
      (within body' (attributeBody ⟨namer, none⟩ onCode' site access (.ofName text)))) :
    Follows Eq (InStep G Q name V) (attributeOf ⟨namer, none⟩ onCode site access ⟨index, body⟩)
      (attributeOf ⟨namer, none⟩ onCode' site access ⟨index, body'⟩) := by
  intro s t value s' hst hrun
  obtain ⟨text, u, hname, hbody⟩ := EStateM.ok_of_bind hrun
  obtain ⟨hname, rfl⟩ := ok_of_utf8 hname
  have hpool := (Pool.Question.utf8 index).ok_of_like (hG.left hst.gathered) hname
  have ht := (Pool.Question.utf8 index).ok_of_like (hG.right hst.gathered).symm hpool
  obtain ⟨value', t', hrest, hvalue, hnext⟩ := h text hpool hst hbody
  exact ⟨value', t', EStateM.bind_eq (utf8_of_ok ht) hrest, hvalue, hnext⟩

variable [Record.Tandem Q]

/-- So are the references to supertypes: both decoders read the same indices, and refer to the same
classes. -/
theorem heading_abreast : Heading ⟨namer, none⟩ ⟨namer, none⟩ (Concurs (InStep G Q name V)) where
  toReferring := (naming_abreast hG).referring
  updateHeaded hf := updateRecord_abreast hf.toUniform
  announce _ := fun _ _ hst => .ok hst

/-- **Attributes that both decoders read** keep them in step, if they read them for the same kind of
member. What is in method bodies is left open here, for one decoder may walk through them and the
other one not. -/
theorem lockstep_abreast (hlast : ∀ a b, V a b → a.last = b.last) :
    Lockstep ⟨namer, none⟩ ⟨namer, none⟩ (Concurs (InStep G Q name V)) := by
  have hlook {α : Type} {k k' : Decoder → Decode α}
      (hk : ∀ s t, s.glimpse = t.glimpse → Concurs (InStep G Q name V) (k s) (k' t)) :
      Concurs (InStep G Q name V) (get >>= k) (get >>= k') := by
    intro s t hst
    refine hk s t ?_ s t hst
    rw [Decoder.glimpse, Decoder.glimpse, show s.last = t.last from hlast _ _ hst.attention,
      Pool.Question.stringConstant (like_abreast hG hst)]
  have htell {event : Event} :
      Concurs (InStep G Q name V) (tell ⟨namer, none⟩ event) (tell ⟨namer, none⟩ event) :=
    fun _ _ hst => .ok hst
  exact {
    toReferring := (naming_abreast hG).referring
    look := hlook
    constant := fun index => gather_abreast hG (.constant index)
    call := fun index => by
      rw [method_eq_pure]
      exact Simulates.pure ()
    loadClass := (naming_abreast hG).loadClass hlook
    take := fun _ => Simulates.read (fun _ => trivial) sameInput_abreast _
    within := Simulates.within sameInput_abreast
    tell := fun _ => htell
    updateRecord := fun hf => updateRecord_abreast hf.toUniform
    updateMember := fun _ => besides_abreast (updateMember_ok _)
    keepDefaultOf := fun value => besides_abreast (keepDefaultOf_ok value)
    keepInnerClass := fun entry =>
      Simulates.bind htell fun _ =>
        updateRecord_abreast (Record.marginal_putInnerClass entry).toUniform
    keepEnclosingMethod := fun place =>
      Simulates.bind htell fun _ =>
        updateRecord_abreast (Record.marginal_putEnclosingMethod place).toUniform
    attempt := fun index access => ((naming_abreast hG).referDescriptor index access).succeeds
    annotationType := (naming_abreast hG).annotationType fun type access =>
      gather_abreast hG (.expose type access) }

/-! ### Attributes -/

variable {a b : Attention}

/-- What both attend to stays the same, however long they read attributes. -/
theorem lockstep_are (hlast : a.last = b.last) : Lockstep ⟨namer, none⟩ ⟨namer, none⟩
    (Concurs (InStep G Q name (Attention.Are a b))) := by
  refine lockstep_abreast hG ?_
  rintro _ _ ⟨rfl, rfl⟩
  exact hlast

/-- The signature of a member is read by both, whatever its text is: if there is a fault in it, both
drop it. -/
theorem signature_abreast (hlast : a.last = b.last) (site : Site) (access : Access) :
    Concurs (InStep G Q name (Attention.Are a b)) (signatureAttribute ⟨namer, none⟩ site access)
      (signatureAttribute ⟨namer, none⟩ site access) :=
  (lockstep_are hG hlast).signatureAttribute (fun _ => besides_abreast (updateMember_ok _))
    site access

/-- Both walk through the same instructions, with the same targets, and take down the same loads. -/
theorem walk_abreast (hlast : a.last = b.last) (htargets : a.targets = b.targets) (code : Bytes) :
    Concurs (InStep G Q name (Attention.Are a b))
      (get >>= fun s => (handlers ⟨namer, none⟩).walk s.targets code)
      (get >>= fun s => (handlers ⟨namer, none⟩).walk s.targets code) := by
  intro s t hst
  have hs : s.targets = a.targets := congrArg Attention.targets hst.attention.1
  have ht : t.targets = b.targets := congrArg Attention.targets hst.attention.2
  change Alike _ _ ((handlers ⟨namer, none⟩).walk s.targets code s)
    ((handlers ⟨namer, none⟩).walk t.targets code t)
  rw [hs, ht, htargets]
  exact (lockstep_are hG hlast).walk b.targets code s t hst

/-- A method body that both walk through is gone through in the same way, with the attributes inside
of it. -/
theorem code_abreast (hlast : a.last = b.last) (htargets : a.targets = b.targets) :
    Concurs (InStep G Q name (Attention.Are a b)) (code ⟨namer, none⟩) (code ⟨namer, none⟩) :=
  (lockstep_are hG hlast).code (signature_abreast hG hlast) (walk_abreast hG hlast htargets)

/-- An attribute that both read is followed, if method bodies are. No other attribute needs to be
looked at. -/
theorem attributeOf_abreast (hlast : a.last = b.last) {onCode onCode' : Decode Unit} {site : Site}
    {access : Access} {raw : RawAttribute}
    (hcode : pool.utf8 raw.name = .ok "Code" → Follows Eq (InStep G Q name (Attention.Are a b))
      (within raw.body onCode) (within raw.body onCode')) :
    Follows Eq (InStep G Q name (Attention.Are a b))
      (attributeOf ⟨namer, none⟩ onCode site access raw)
      (attributeOf ⟨namer, none⟩ onCode' site access raw) := by
  have hlockstep : Lockstep ⟨namer, none⟩ ⟨namer, none⟩
      (Concurs (InStep G Q name (Attention.Are a b))) := lockstep_are hG hlast
  refine attributeOf_of_body hG fun text hname => ?_
  by_cases hkind : AttributeKind.ofName text = .code
  · rw [hkind]
    exact hcode (AttributeKind.name_of_code hkind ▸ hname)
  · exact .of_simulates (hlockstep.within (hlockstep.attributeBody
      (fun _ => signature_abreast hG hlast site access) fun h => absurd h hkind))

/-- A table of attributes that both read is followed, if method bodies are. It is an induction over
the table. -/
theorem attributesOf_abreast (hlast : a.last = b.last) {onCode onCode' : Decode Unit} {site : Site}
    {access : Access} {raws : List RawAttribute}
    (hcode : ∀ raw ∈ raws, pool.utf8 raw.name = .ok "Code" →
      Follows Eq (InStep G Q name (Attention.Are a b)) (within raw.body onCode)
        (within raw.body onCode')) :
    Follows Eq (InStep G Q name (Attention.Are a b))
      (attributesOf ⟨namer, none⟩ onCode site access raws)
      (attributesOf ⟨namer, none⟩ onCode' site access raws) :=
  .forM_same fun raw hraw => attributeOf_abreast hG hlast (hcode raw hraw)

end Tandem

end Decode

end ClassFile
