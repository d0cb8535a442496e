import ClassFile.Proofs.WalkDecision
import ClassFile.Proofs.Findings

/-!
# A class retains annotations if there are any

Whether a class has annotations that are visible at run time, and whether it has others, is put on
record wherever an annotation is read, however deep inside of values. So it is known of a class
exactly if there is an annotation in one of its attributes that is decoded: of the class, of a
member, or of a method body that is walked through (`ClassFile.Layout.Decodes`). Default values of
annotations' elements count as visible at run time, whatever attributes there are else.

Each step is followed with what it brings (`ClassFile.Decode.Brings`). Only annotations bring
something, and attributes without any, supertypes and members by themselves bring nothing.
-/

namespace ClassFile

/-! ### Where there are annotations -/

/-- There is an annotation in the body of an attribute that counts as one of the retention. -/
def AttributeKind.Counts (retention : Retention) (kind : AttributeKind) (body : Bytes) : Prop :=
  kind.Retains retention body ∨ retention = .runtime ∧ kind.Presets body

/-- A default value that is an annotation, or has one inside, counts as visible at run time, though
no attribute for visible annotations stands there. -/
theorem AttributeKind.counts_runtime : Counts .runtime = fun kind body =>
    kind.Retains .runtime body ∨ kind.Presets body := by
  funext kind body
  simp only [Counts, true_and]

/-- It does not count as hidden: for that an attribute for hidden annotations must be there. -/
theorem AttributeKind.counts_compiled : Counts .compiled = Retains .compiled := by
  funext kind body
  simp only [Counts, reduceCtorEq, false_and, or_false]

/-- An attribute that is decoded is like that. -/
inductive Layout.Decodes (layout : Layout) (Q : AttributeKind → Bytes → Prop) : Prop where
  | ofClass {raw : RawAttribute} : raw ∈ layout.attributes → raw.Meets layout.constants Q →
    Decodes layout Q
  | ofMember {kind : LastMember} {member : RawMember} {raw : RawAttribute} :
    member ∈ layout.members kind → raw ∈ member.attributes → raw.Meets layout.constants Q →
    Decodes layout Q
  /-- Method bodies are walked through. -/
  | ofBody {method : RawMember} {raw : RawAttribute} : layout.Walks → method ∈ layout.methods →
    raw ∈ method.attributes → raw.Encloses layout.constants Q → Decodes layout Q

section Decodes

variable {pool : Pool} {layout : Layout} {Q Q' : AttributeKind → Bytes → Prop} {raw : RawAttribute}

theorem RawAttribute.meets_or : raw.Meets pool (fun kind body => Q kind body ∨ Q' kind body) ↔
    raw.Meets pool Q ∨ raw.Meets pool Q' := by
  simp only [Meets, and_or_left, exists_or]

theorem RawAttribute.encloses_or : raw.Encloses pool (fun kind body => Q kind body ∨ Q' kind body) ↔
    raw.Encloses pool Q ∨ raw.Encloses pool Q' := by
  simp only [Encloses, meets_or, and_or_left, exists_or]

namespace Layout.Decodes

/-- What is said of all attributes that meet a condition may be weakened, in the attributes
themselves and in the method bodies that enclose them. -/
theorem imp (h : layout.Decodes Q)
    (hmeets : ∀ raw : RawAttribute, raw.Meets layout.constants Q → raw.Meets layout.constants Q')
    (hencloses : ∀ raw : RawAttribute,
      raw.Encloses layout.constants Q → raw.Encloses layout.constants Q') : layout.Decodes Q' := by
  cases h with
  | ofClass hraw h => exact .ofClass hraw (hmeets _ h)
  | ofMember hmember hraw h => exact .ofMember hmember hraw (hmeets _ h)
  | ofBody hwalks hmethod hraw h => exact .ofBody hwalks hmethod hraw (hencloses _ h)

/-- An attribute that meets one of two conditions is decoded if one that meets the first is, or one
that meets the second. It is what the defect is told apart by. -/
theorem or_iff : layout.Decodes (fun kind body => Q kind body ∨ Q' kind body) ↔
    layout.Decodes Q ∨ layout.Decodes Q' := by
  constructor
  · rintro (⟨hraw, h⟩ | ⟨hmember, hraw, h⟩ | ⟨hwalks, hmethod, hraw, h⟩)
    · exact (RawAttribute.meets_or.1 h).imp (.ofClass hraw) (.ofClass hraw)
    · exact (RawAttribute.meets_or.1 h).imp (.ofMember hmember hraw) (.ofMember hmember hraw)
    · exact (RawAttribute.encloses_or.1 h).imp (.ofBody hwalks hmethod hraw)
        (.ofBody hwalks hmethod hraw)
  · rintro (h | h)
    · exact h.imp (fun _ h => RawAttribute.meets_or.2 (.inl h))
        fun _ h => RawAttribute.encloses_or.2 (.inl h)
    · exact h.imp (fun _ h => RawAttribute.meets_or.2 (.inr h))
        fun _ h => RawAttribute.encloses_or.2 (.inr h)

/-- The parts of a class in which there may be an attribute like that: the fields, the methods with
the bodies that are walked through, and the class itself. -/
theorem iff_parts : layout.Decodes Q ↔
    ((∃ field ∈ layout.fields, ∃ raw ∈ field.attributes, raw.Meets layout.constants Q) ∨
      ∃ method ∈ layout.methods, ∃ raw ∈ method.attributes,
        raw.Meets layout.constants Q ∨ layout.Walks ∧ raw.Encloses layout.constants Q) ∨
      ∃ raw ∈ layout.attributes, raw.Meets layout.constants Q := by
  constructor
  · rintro (⟨hraw, h⟩ | @⟨kind, member, raw, hmember, hraw, h⟩ | ⟨hwalks, hmethod, hraw, h⟩)
    · exact .inr ⟨_, hraw, h⟩
    · cases kind with
      | field => exact .inl (.inl ⟨member, hmember, raw, hraw, h⟩)
      | method => exact .inl (.inr ⟨member, hmember, raw, hraw, .inl h⟩)
    · exact .inl (.inr ⟨_, hmethod, _, hraw, .inr ⟨hwalks, h⟩⟩)
  · rintro ((⟨field, hfield, raw, hraw, h⟩ | ⟨method, hmethod, raw, hraw, h | ⟨hwalks, h⟩⟩) |
      ⟨raw, hraw, h⟩)
    · exact .ofMember (show field ∈ layout.members .field from hfield) hraw h
    · exact .ofMember (show method ∈ layout.members .method from hmethod) hraw h
    · exact .ofBody hwalks hmethod hraw h
    · exact .ofClass hraw h

end Layout.Decodes

end Decodes

/-! ### What is on record -/

theorem Record.retains_iff_has {record : Record} {retention : Retention} :
    record.retains retention = true ↔ record.Has (.retained retention) := by
  cases retention <;> rfl

/-- The decoder goes through a class of this layout, whether it walks through method bodies is like
that, and by its record there are annotations of these retentions. -/
structure Decoder.Retains (layout : Layout) (A : Bool → Prop) (P : Retention → Prop) (s : Decoder) :
    Prop where
  pool : s.pool.Like layout.constants
  record : ∀ record ∈ s.record, ∀ retention, record.retains retention = true ↔ P retention
  walking : A s.walking

namespace Decoder.Retains

variable {layout : Layout} {A : Bool → Prop} {P : Retention → Prop} {s : Decoder}

/-- The invariant says nothing of what is collected, so it lasts while a decoding without a listener
gathers references. -/
theorem lasting (layout : Layout) (A : Bool → Prop) (P : Retention → Prop) :
    Decode.Lasting (Retains layout A P) where
  bare {s t} h hbare :=
    { pool := like_of_bare hbare h.pool
      record := by
        rw [show t.record = s.record from (congrArg Decoder.record hbare :)]
        exact h.record
      walking := by
        rw [show t.walking = s.walking from (congrArg Decoder.walking hbare :)]
        exact h.walking }
  withInput _ h := ⟨h.pool, h.record, h.walking⟩
  marked index h := ⟨(Pool.like_markReferred _ index).trans h.pool, h.record, h.walking⟩

/-- A change of the record that does not concern annotations. Whether bodies are walked through is
left as it is. -/
theorem withRecord (h : s.Retains layout A P) {f : Record → Record}
    (hf : ∀ record retention, (f record).retains retention = record.retains retention) :
    Retains layout A P { s with record := s.record.map f } where
  pool := h.pool
  record record hrecord retention := by
    obtain ⟨found, hfound, rfl⟩ := Option.map_eq_some_iff.1 hrecord
    rw [hf]
    exact h.record found hfound retention
  walking := h.walking

end Decoder.Retains

namespace Decode

open Decoder

/-- The step finds no annotations. -/
abbrev Passing (layout : Layout) (A : Bool → Prop) {α : Type} (m : Decode α) : Prop :=
  BringsNothing (Retains layout A) m

namespace Passing

variable {namer : Namer} {layout : Layout} {A : Bool → Prop} {α : Type}

theorem read (reader : Reader α) : Passing layout A (read reader) :=
  .of_keeps fun P => .read (fun _ input hs => (Retains.lasting layout A P).withInput input hs)
    fun _ _ _ _ => trivial

theorem count : Passing layout A count := (read _).bind fun _ => .pure _

theorem tell (event : Event) : Passing layout A (tell ⟨namer, none⟩ event) :=
  .of_keeps fun _ => .modify fun _ hs => hs

/-- A reference to a type does not touch the record, so it passes by. -/
theorem refer (type : TypeName) (access : Access) :
    Passing layout A (refer ⟨namer, none⟩ type access) :=
  .of_keeps fun P => (Retains.lasting layout A P).collects (.refer type access)

theorem referDescriptor (index : UInt16) (access : Access) :
    Passing layout A (referDescriptor ⟨namer, none⟩ index access) :=
  .of_keeps fun P => (Retains.lasting layout A P).naming.referDescriptor
    (d := ⟨namer, none⟩) index access

theorem updateRecord {f : Record → Record}
    (hf : ∀ record retention, (f record).retains retention = record.retains retention) :
    Passing layout A (updateRecord f) :=
  .of_keeps fun _ => .updateRecord trivial fun _ hs => hs.withRecord hf

/-- A change of a member concerns no annotations of the class, for these are noted on the record and
not on its members. -/
theorem besides {m : Decode Unit} (hm : ∀ s, ∃ g, Record.Besides g ∧
    m s = .ok () { s with record := s.record.map g }) : Passing layout A m := by
  refine .of_keeps fun P s hs => ?_
  obtain ⟨g, hg, hrun⟩ := hm s
  rw [hrun]
  refine hs.withRecord fun record retention => Bool.eq_iff_iff.2 ?_
  rw [Record.retains_iff_has, Record.retains_iff_has]
  exact hg.has record (.retained retention)

theorem updateMember (f : Member → Member) : Passing layout A (updateMember f) :=
  besides (updateMember_ok f)

/-- What passes by does so also within the body of an attribute, which has an input of its own. -/
theorem within (body : Bytes) {m : Decode α} (hm : Passing layout A m) :
    Passing layout A (within body m) := by
  intro P s a t hs hrun
  obtain ⟨u, hinner, rfl⟩ := ok_of_within hrun
  have hlasting := Retains.lasting layout A P
  exact hlasting.withInput _ (hm P _ a u (hlasting.withInput _ hs) hinner)

/-! ### Attributes without annotations -/

theorem attempt (index : UInt16) (access : Access) :
    Passing layout A (succeeds (Decode.referDescriptor ⟨namer, none⟩ index access)) :=
  .of_keeps fun P => (Retains.lasting layout A P).attempt index access

theorem constant (index : UInt16) : Passing layout A (referClassConstant ⟨namer, none⟩ index) :=
  .of_keeps fun P => (Retains.lasting layout A P).constant index

theorem deprecatedAttribute (site : Site) :
    Passing layout A (deprecatedAttribute ⟨namer, none⟩ site) := by
  refine .look fun s => ?_
  cases s.last with
  | some last => exact (updateMember _).bind fun _ => tell _
  | none =>
    by_cases hsite : site = .type
    · simp only [hsite, if_true]
      exact .bind (updateRecord fun _ _ => rfl) fun _ => tell _
    · simp only [hsite, if_false]
      exact tell _

/-- A table of nested classes refers to classes and puts its entries on record; no annotation is in
it. -/
theorem innerClassesAttribute : Passing layout A (innerClassesAttribute ⟨namer, none⟩) := by
  refine count.bind fun n => .repeated ?_ n
  refine (read _).bind fun inner => (read _).bind fun outer => (read _).bind fun name => ?_
  have hclass (index : UInt16) : Passing layout A (classAt? index) := by
    rw [classAt?]
    split
    · exact .pure none
    · exact (BringsNothing.classAt index).bind fun _ => .pure _
  refine (read _).bind fun access => (hclass inner).bind fun inner =>
    (hclass outer).bind fun outer => ?_
  have hrest (simpleName : Option String) :
      Passing layout A (keepInnerClass ⟨namer, none⟩ ⟨inner, outer, simpleName, access⟩) :=
    (tell _).bind fun _ => updateRecord fun _ _ => rfl
  dsimp only
  split
  · exact (BringsNothing.pure none).bind hrest
  · exact ((BringsNothing.utf8 name).bind fun _ => .pure _).bind hrest

theorem enclosingMethodAttribute : Passing layout A (enclosingMethodAttribute ⟨namer, none⟩) := by
  refine (read _).bind fun classIndex => (read _).bind fun methodIndex => ?_
  refine (constant classIndex).bind fun _ => (BringsNothing.classAt classIndex).bind fun type => ?_
  have hrest (place : EnclosingMethod) :
      Passing layout A (keepEnclosingMethod ⟨namer, none⟩ place) :=
    (tell _).bind fun _ => updateRecord fun _ _ => rfl
  dsimp only
  split
  · exact (BringsNothing.pure _).bind hrest
  · exact (BringsNothing.ask _).bind fun _ => (BringsNothing.pure _).bind hrest

theorem sourceFileAttribute : Passing layout A sourceFileAttribute :=
  (read _).bind fun index => (BringsNothing.utf8 index).bind fun _ =>
    updateRecord fun _ _ => rfl

/-- A signature names classes, and no annotations, whether it is stored or left out as malformed. -/
theorem signatureAttribute (site : Site) (access : Access) :
    Passing layout A (signatureAttribute ⟨namer, none⟩ site access) := by
  refine (read _).bind fun index => (attempt index access).bind fun accepted => ?_
  split
  · refine (BringsNothing.utf8 index).bind fun text => (tell _).bind fun _ => ?_
    split
    · exact updateRecord fun _ _ => rfl
    · exact updateMember _
  · exact .pure ()

theorem constantAttribute : Passing layout A (constantAttribute ⟨namer, none⟩) := by
  have hconstant (index : UInt16) : Passing layout A (constantAt index) := by
    refine (BringsNothing.ask _).bind fun found => ?_
    cases found with
    | string text => exact (BringsNothing.utf8 text).bind fun _ => .pure _
    | integer | float | long | double | utf8 => exact .pure _
    | _ => exact .throw _
  exact (read _).bind fun index => (hconstant index).bind fun _ =>
    (tell _).bind fun _ => updateMember _

theorem exceptionsAttribute (access : Access) :
    Passing layout A (exceptionsAttribute ⟨namer, none⟩ access) :=
  count.bind fun n => .repeated ((read _).bind fun index =>
    (BringsNothing.classAt index).bind fun type => refer type access) n

/-- **An attribute that has no annotations** passes by. These are all kinds but the three kinds of
tables, the default values, and method bodies. -/
theorem attributeBody {onCode : Decode Unit} {kind : AttributeKind} (hkind : kind.retention? = none)
    (hcode : kind ≠ .code) (site : Site) (access : Access) :
    Passing layout A (attributeBody ⟨namer, none⟩ onCode site access kind) := by
  cases kind with
  | deprecated => exact deprecatedAttribute site
  | innerClasses => exact innerClassesAttribute
  | enclosingMethod => exact enclosingMethodAttribute
  | sourceFile => exact sourceFileAttribute
  | code => exact absurd rfl hcode
  | signature => exact signatureAttribute site access
  | constantValue => exact constantAttribute
  | exceptions => exact exceptionsAttribute access
  | other => exact .pure ()
  | _ => exact nomatch hkind

end Passing

/-! ### Attributes with annotations -/

/-- The body of an attribute brings what is brought by what is read of it. What is behind that in
the body does not matter, and it cannot be read in another way. -/
theorem Brings.within_parses {layout : Layout} {A : Bool → Prop} {ρ : Type} {form : Form ρ}
    {act : ρ → Decode Unit} {m : Decode Unit} {Q : ρ → Retention → Prop} {body : Bytes}
    (hm : Parses form act m) (hform : form.Distinct)
    (hact : ∀ raw, Brings (Retains layout A) (Q raw) (act raw)) :
    Brings (Retains layout A) (fun retention => ∃ raw rest, form.Fits raw ∧
      body = form.encode raw ++ rest ∧ Q raw retention) (within body m) := by
  intro P s _ t hs hrun
  obtain ⟨u, hinner, rfl⟩ := ok_of_within hrun
  obtain ⟨raw, rest, hfits, hfront, hacted⟩ := (hm.eq_ok_iff _ _ _).1 hinner
  -- the body is not read in another way
  have hsame (retention : Retention) : Q raw retention ↔ ∃ raw rest, form.Fits raw ∧
      body = form.encode raw ++ rest ∧ Q raw retention := by
    refine ⟨fun h => ⟨raw, rest, hfits, hfront, h⟩, ?_⟩
    rintro ⟨raw', rest', hfits', hfront', h⟩
    obtain ⟨rfl, -⟩ := hform hfits hfits' (hfront.symm.trans hfront')
    exact h
  have hall := (hact raw).congr hsame P _ _ u ((Retains.lasting layout A P).withInput _ hs) hacted
  exact (Retains.lasting layout A _).withInput s.input hall

section Annotated

variable {namer : Namer} {layout : Layout} {A : Bool → Prop} {site : Site} {retention : Retention}
  {access : Access}

/-- Whatever annotation it is, and whatever its type, there is one of its retention on record when
it has been read. -/
theorem noticing_retains : Noticing ⟨namer, none⟩ (Retains layout A) retention
    fun _ other => other = retention where
  note {P index text s} hs _ :=
    { pool := hs.pool
      record := by
        intro record hrecord other
        obtain ⟨found, hfound, rfl⟩ := Option.map_eq_some_iff.1 hrecord
        rw [Record.retains_note, hs.record found hfound]
      walking := hs.walking }
  annotationType access index :=
    .of_keeps fun P => (Retains.lasting layout A P).annotationType retention access index

theorem noted_iff {raw : RawAnnotation} {other : Retention} :
    Noticing.Noted (fun _ other => other = retention) (fun index => raw.Includes index) other ↔
      other = retention :=
  ⟨fun ⟨_, _, h⟩ => h, fun h => ⟨raw.type, raw.includes_type, h⟩⟩

theorem exists_mem_iff_ne_nil {ρ : Type} {raws : List ρ} {p : Prop} :
    (∃ raw ∈ raws, p) ↔ raws ≠ [] ∧ p := by
  refine ⟨fun ⟨_, hraw, h⟩ => ⟨List.ne_nil_of_mem hraw, h⟩, fun ⟨hne, h⟩ => ?_⟩
  obtain ⟨raw, hraw⟩ := List.exists_mem_of_ne_nil raws hne
  exact ⟨raw, hraw, h⟩

/-- Annotations are on record for their retention if there are any: an empty table leaves nothing
behind. -/
theorem annotationsOf_brings (raws : List RawAnnotation) :
    Brings (Retains layout A) (fun other => raws ≠ [] ∧ other = retention)
      (annotationsOf ⟨namer, none⟩ site retention access raws) := by
  have hone (raw : RawAnnotation) : Brings (Retains layout A) (fun other => other = retention)
      (outerAnnotationOf ⟨namer, none⟩ site retention access raw >>=
        keepAnnotationOf ⟨namer, none⟩ site) := by
    refine ((noticing_retains.outerAnnotationOf raw).congr fun _ => noted_iff).before
      fun found => ?_
    refine (Passing.tell _).bind fun _ => ?_
    split
    · exact Passing.updateRecord fun _ _ => rfl
    · exact Passing.updateMember _
  exact (Brings.forM fun raw _ => hone raw).congr fun _ => exists_mem_iff_ne_nil

/-- For parameters there is a table for each of them, and it is enough that one of these is not
empty. -/
theorem parameterAnnotationsOf_brings (lists : List (List RawAnnotation)) :
    Brings (Retains layout A) (fun other => ∃ raws ∈ lists, raws ≠ [] ∧ other = retention)
      (parameterAnnotationsOf ⟨namer, none⟩ retention access lists) := by
  have hone (numbered : List RawAnnotation × Nat) :
      Brings (Retains layout A) (fun other => numbered.1 ≠ [] ∧ other = retention) (do
        tell ⟨namer, none⟩ (.parameter (UInt8.ofNat numbered.2))
        annotationsOf ⟨namer, none⟩ .parameter retention access numbered.1) :=
    Brings.after (Passing.tell _) fun _ => annotationsOf_brings numbered.1
  refine (Brings.forM fun numbered _ => hone numbered).congr fun other => ?_
  conv_rhs => rw [← List.zipIdx_map_fst 0 lists]
  simp only [List.mem_map, exists_exists_and_eq_and]

theorem typeAnnotationsOf_brings (raws : List RawTypeAnnotation) :
    Brings (Retains layout A) (fun other => raws ≠ [] ∧ other = retention)
      (typeAnnotationsOf ⟨namer, none⟩ site retention access raws) :=
  (noticing_retains.typeAnnotationsOf raws).congr fun _ => by
    simp only [noted_iff]
    exact exists_mem_iff_ne_nil

/-- The value of a default has a retention only if there is an annotation inside, and then it is
taken to be visible at run time. -/
theorem annotationDefaultOf_brings (raw : RawValue) :
    Brings (Retains layout A) (fun other => (∃ index, raw.Includes index) ∧ other = .runtime)
      (annotationDefaultOf ⟨namer, none⟩ site access raw) := by
  refine Brings.congr (Brings.before (noticing_retains.valueOf (nestingLimit + 1) raw)
    fun value => Passing.besides (keepDefaultOf_ok value)) fun other => ?_
  simp only [Noticing.Noted, exists_and_right]

/-! ### Any attribute -/

/-- The attribute is one table of annotations of a retention, and of no other, in the given form. -/
inductive Tabled (retention : Retention) : AttributeKind → (α : Type) → Form α → Prop where
  | annotations : Tabled retention (.annotations retention) RawAnnotation RawAnnotation.outerForm
  | typeAnnotations :
    Tabled retention (.typeAnnotations retention) RawTypeAnnotation RawTypeAnnotation.form

/-- Such an attribute counts if the table is not empty. The form of the table is a parameter, since
annotations of declarations and those on uses of types differ in nothing else. -/
theorem counts_tabled {kind : AttributeKind} {α : Type} {form : Form α}
    (hkind : Tabled retention kind α form) {body : Bytes} {other : Retention} :
    kind.Counts other body ↔ ∃ raws rest, form.table.Fits raws ∧
      body = form.table.encode raws ++ rest ∧ raws ≠ [] ∧ other = retention := by
  constructor
  · rintro (h | ⟨-, h⟩)
    · cases hkind <;> cases h <;> exact ⟨_, _, ‹_›, rfl, ‹_›, rfl⟩
    · cases hkind <;> exact nomatch h
  · rintro ⟨raws, rest, hfits, rfl, hne, rfl⟩
    cases hkind with
    | annotations => exact .inl (.annotations rest hfits hne)
    | typeAnnotations => exact .inl (.typeAnnotations rest hfits hne)

theorem counts_parameterAnnotations {body : Bytes} {other : Retention} :
    (AttributeKind.parameterAnnotations retention).Counts other body ↔ ∃ lists rest,
      RawAnnotation.outerForm.table.shortTable.Fits lists ∧
        body = RawAnnotation.outerForm.table.shortTable.encode lists ++ rest ∧
        ∃ raws ∈ lists, raws ≠ [] ∧ other = retention := by
  constructor
  · rintro (h | ⟨-, h⟩)
    · cases h with
      | parameterAnnotations rest hfits hraws hne =>
        exact ⟨_, rest, hfits, rfl, _, hraws, hne, rfl⟩
    · exact nomatch h
  · rintro ⟨lists, rest, hfits, rfl, raws, hraws, hne, rfl⟩
    exact .inl (.parameterAnnotations rest hfits hraws hne)

theorem counts_annotationDefault {body : Bytes} {other : Retention} :
    AttributeKind.annotationDefault.Counts other body ↔ ∃ raw rest, RawValue.outerForm.Fits raw ∧
      body = RawValue.outerForm.encode raw ++ rest ∧
        (∃ index, raw.Includes index) ∧ other = .runtime := by
  constructor
  · rintro (h | ⟨rfl, ⟨rest, hfits, hindex⟩⟩)
    · exact nomatch h
    · exact ⟨_, rest, hfits, rfl, ⟨_, hindex⟩, rfl⟩
  · rintro ⟨raw, rest, hfits, rfl, ⟨index, hindex⟩, rfl⟩
    exact .inr ⟨rfl, .annotationDefault rest hfits hindex⟩

/-- An attribute of any other kind counts for no retention. -/
theorem not_counts {kind : AttributeKind} (hkind : kind.retention? = none) {other : Retention}
    {body : Bytes} : ¬kind.Counts other body := by
  rintro (h | ⟨-, h⟩) <;> cases h <;> cases hkind

/-- **An attribute brings the annotations in it**, if it is not a method body: exactly if it counts
for a retention, the retention is on record afterwards or was before. -/
theorem attributeBody_brings {onCode : Decode Unit} {kind : AttributeKind} (hcode : kind ≠ .code)
    (body : Bytes) : Brings (Retains layout A) (fun other => kind.Counts other body)
      (within body (attributeBody ⟨namer, none⟩ onCode site access kind)) := by
  cases hkind : kind.retention? with
  | none =>
    refine Brings.congr (Brings.nothing ?_) fun other => ⟨False.elim, not_counts hkind⟩
    exact Passing.within body (Passing.attributeBody hkind hcode site access)
  | some retention =>
    cases kind with
    | annotations retention =>
      have hdistinct := Form.Distinct.annotation (.value (nestingLimit + 1))
      exact (Brings.within_parses Parses.annotations hdistinct.table
        annotationsOf_brings).congr fun _ => (counts_tabled .annotations).symm
    | parameterAnnotations retention =>
      have hdistinct := Form.Distinct.annotation (.value (nestingLimit + 1))
      exact (Brings.within_parses Parses.parameterAnnotations hdistinct.table.shortTable
        parameterAnnotationsOf_brings).congr fun _ => counts_parameterAnnotations.symm
    | typeAnnotations retention =>
      exact (Brings.within_parses Parses.typeAnnotations Form.Distinct.typeAnnotation.table
        typeAnnotationsOf_brings).congr fun _ => (counts_tabled .typeAnnotations).symm
    | annotationDefault =>
      exact (Brings.within_parses Parses.annotationDefault (Form.Distinct.value _)
        annotationDefaultOf_brings).congr fun _ => counts_annotationDefault.symm
    | _ => exact nomatch hkind

/-- An attribute of the class or of a member, with what is brought if it is a method body. The name
of the attribute says which of the two it is. -/
theorem attributeOf_brings {onCode : Decode Unit} {raw : RawAttribute} {Q : Retention → Prop}
    (hcode : Brings (Retains layout A) Q (within raw.body onCode)) :
    Brings (Retains layout A)
      (fun other => raw.Meets layout.constants (AttributeKind.Counts other) ∨
        layout.constants.utf8 raw.name = .ok "Code" ∧ Q other)
      (attributeOf ⟨namer, none⟩ onCode site access raw) := by
  intro P s _ t hs hrun
  obtain ⟨name, hname, hbody⟩ := attributeOf_eq_ok_iff.1 hrun
  have hname := (Pool.Question.utf8 raw.name).ok_of_like hs.pool hname
  have hmeets (other : Retention) : raw.Meets layout.constants (AttributeKind.Counts other) ↔
      (AttributeKind.ofName name).Counts other raw.body := by
    refine ⟨fun ⟨text, htext, h⟩ => ?_, fun h => ⟨name, hname, h⟩⟩
    cases hname.symm.trans htext
    exact h
  -- a method body has no annotations but for those in its attributes, and no other attribute is one
  by_cases hkind : AttributeKind.ofName name = .code
  · cases AttributeKind.name_of_code hkind
    refine hcode.congr (fun other => ?_) P _ _ t hs hbody
    rw [hmeets, hkind, or_iff_right (not_counts rfl), and_iff_right hname]
  · refine (attributeBody_brings hkind raw.body).congr (fun other => ?_) P _ _ t hs hbody
    rw [hmeets, or_iff_left]
    rintro ⟨htext, -⟩
    cases hname.symm.trans htext
    exact hkind rfl

/-- Attributes of which no method body is entered bring the annotations in them, and nothing of what
stands in bodies. -/
theorem attributesOf_brings (raws : List RawAttribute) :
    Brings (Retains layout A)
      (fun other => ∃ raw ∈ raws, raw.Meets layout.constants (AttributeKind.Counts other))
      (attributesOf ⟨namer, none⟩ (pure ()) site access raws) := by
  refine Brings.forM fun raw _ => ?_
  have hnothing : Passing layout A (within raw.body (pure ())) := Passing.within raw.body (.pure ())
  refine (attributeOf_brings (Brings.nothing hnothing)).congr fun other => ?_
  simp only [and_false, or_false]

/-- A method body that is walked through brings what is in its own attributes: its code and its
handlers bring nothing. -/
theorem codeOf_brings (raw : RawCode) :
    Brings (Retains layout A)
      (fun other => ∃ inner ∈ raw.attributes,
        inner.Meets layout.constants (AttributeKind.Counts other))
      (codeOf ⟨namer, none⟩ raw) := by
  have hwalking (P : Retention → Prop) : Walking ⟨namer, none⟩ ⟨namer, none⟩
      fun m _ => Keeps (Retains layout A P) (fun _ => True) m :=
    (Retains.lasting layout A P).walking
  have hwalk (targets : Targets) :
      Passing layout A ((handlers ⟨namer, none⟩).walk targets raw.code) :=
    .of_keeps fun P => (hwalking P).walk targets raw.code
  have hhandler (handler : Bytes × UInt16) :
      Passing layout A (referClassConstant ⟨namer, none⟩ handler.2) := Passing.constant handler.2
  intro P
  refine .look fun s _ => ?_
  refine (hwalk s.targets P).bind fun _ => ?_
  refine (BringsNothing.forM hhandler raw.handlers P).bind fun _ => ?_
  exact attributesOf_brings raw.attributes P

/-- Attributes of a method, of which a body is entered if it is walked through. So a condition on
the attributes of a method has a second part, about what its bodies enclose. -/
theorem bodies_bring (raws : List RawAttribute) :
    Brings (Retains layout A)
      (fun other => ∃ raw ∈ raws, raw.Meets layout.constants (AttributeKind.Counts other) ∨
        raw.Encloses layout.constants (AttributeKind.Counts other))
      (attributesOf ⟨namer, none⟩ (code ⟨namer, none⟩) site access raws) :=
  Brings.forM fun _ _ => attributeOf_brings
    (Brings.within_parses (Parses.code ⟨namer, none⟩) Form.Distinct.code codeOf_brings)

end Annotated

/-! ### Members -/

namespace Passing

variable {namer : Namer} {layout : Layout} {A : Bool → Prop}

theorem turn (last : Option LastMember) :
    Passing layout A (modify fun s : Decoder => { s with last := last }) :=
  fun _ => .modify fun _ hs => ⟨hs.pool, hs.record, hs.walking⟩

/-- Before the attributes of a field it may be settled that bodies are walked through, which is not
what is on record. -/
theorem openField (header : MemberHeader) :
    Passing layout (fun _ => True) (openField ⟨namer, none⟩ header) := by
  have hrest (member : Member) : Passing layout (fun _ => True) (do
      Decode.tell ⟨namer, none⟩ (.field member)
      Decode.referDescriptor ⟨namer, none⟩ header.descriptorIndex header.access
      Decode.updateRecord fun record => { record with fields := record.fields.push member }
      modify fun s => { s with last := some .field }) :=
    (tell _).bind fun _ => (referDescriptor _ _).bind fun _ =>
      .bind (updateRecord fun _ _ => rfl) fun _ => turn _
  have hwalking : Passing layout (fun _ => True)
      (modify fun s : Decoder => { s with walking := true }) :=
    fun _ => .modify fun _ hs => ⟨hs.pool, hs.record, trivial⟩
  rw [Decode.openField]
  split
  · exact hwalking.bind fun _ => hrest _
  · exact hrest _

theorem openMethod (header : MemberHeader) :
    Passing layout A (openMethod ⟨namer, none⟩ header) := by
  rw [Decode.openMethod]
  cases Signature.arguments header.descriptor with
  | error fault => exact .throw fault
  | ok arguments =>
    exact (BringsNothing.pure arguments).bind fun _ => (tell _).bind fun _ =>
      (referDescriptor _ _).bind fun _ => .bind (updateRecord fun _ _ => rfl) fun _ => turn _

theorem memberHeaderOf (raw : RawMember) : Passing layout A (memberHeaderOf raw) :=
  (BringsNothing.utf8 _).bind fun _ => (BringsNothing.utf8 _).bind fun _ => .pure _

theorem superclassAt (access : Access) (index : UInt16) :
    Passing layout A (superclassAt ⟨namer, none⟩ access index) := by
  rw [Decode.superclassAt]
  split
  · exact (BringsNothing.classAt index).bind fun type => (refer type access).bind fun _ =>
      (tell _).bind fun _ => updateRecord fun _ _ => rfl
  · exact .pure ()

theorem interfacesOf (access : Access) (indices : List UInt16) :
    Passing layout A (interfacesOf ⟨namer, none⟩ access indices) := by
  have hone (index : UInt16) : Passing layout A (interfaceAt ⟨namer, none⟩ access index) :=
    (BringsNothing.classAt index).bind fun type => (refer type access).bind fun _ => .pure type
  refine (BringsNothing.mapM hone indices).bind fun types => ?_
  rw [keepInterfaces]
  split
  · exact updateRecord fun _ _ => rfl
  · exact (tell _).bind fun _ => updateRecord fun _ _ => rfl

end Passing

variable {namer : Namer} {layout : Layout}

/-- A field brings what its attributes bring: its header has no annotations. -/
theorem fieldOf_brings (member : RawMember) :
    Brings (Retains layout fun _ => True)
      (fun other => ∃ raw ∈ member.attributes,
        raw.Meets layout.constants (AttributeKind.Counts other))
      (fieldOf ⟨namer, none⟩ member) :=
  .after (Passing.memberHeaderOf member) fun header => .after (Passing.openField header) fun _ =>
    attributesOf_brings member.attributes

/-- So does a method, and what is in its bodies if these are walked through, which is settled when
the methods begin. -/
theorem methodOf_brings (member : RawMember) :
    Brings (Retains layout fun walking => walking = true ↔ layout.Walks)
      (fun other => ∃ raw ∈ member.attributes,
        raw.Meets layout.constants (AttributeKind.Counts other) ∨
        layout.Walks ∧ raw.Encloses layout.constants (AttributeKind.Counts other))
      (methodOf ⟨namer, none⟩ member) := by
  refine .after (Passing.memberHeaderOf member) fun header =>
    .after (Passing.openMethod header) fun _ =>
    fun P => .look fun s hs => ?_
  dsimp only
  by_cases hwalking : s.walking = true
  · rw [if_pos hwalking]
    simp only [hs.walking.1 hwalking, true_and]
    exact bodies_bring member.attributes P
  · have hwalks : ¬layout.Walks := fun h => hwalking (hs.walking.2 h)
    rw [if_neg hwalking]
    simp only [hwalks, false_and, or_false]
    exact attributesOf_brings member.attributes P

/-! ### Classes -/

/-- What is done with a class up to its methods. -/
def untilMethods (context : Context) (access : Access) (orphan : Bool) (raw : RawBody) :
    Decode Unit := do
  superclassAt context access raw.superclass
  interfacesOf context access raw.interfaces
  raw.fields.forM (fieldOf context)
  prepareWalks orphan

/-- The parts of a class in a row: what comes before the methods, the methods, and what comes behind
them. -/
theorem classBodyOf_eq (context : Context) (orphan : Bool) (raw : RawBody) :
    classBodyOf context orphan raw = (do
      let access := (← record).access
      untilMethods context access orphan raw
      raw.methods.forM (methodOf context)
      tell context .membersEnd
      modify fun s => { s with last := none }
      attributesOf context (pure ()) .type access raw.attributes
      finish) := by
  simp only [classBodyOf, untilMethods, bind_assoc]

variable {name : TypeName} {access : Access} {orphan : Bool}

/-- What is brought before the methods is brought by the fields, for the header, the superclass and
the interfaces have no attributes. -/
theorem untilMethods_brings : Brings (Retains layout fun _ => True)
    (fun other => ∃ field ∈ layout.fields, ∃ raw ∈ field.attributes,
      raw.Meets layout.constants (AttributeKind.Counts other))
    (untilMethods ⟨namer, none⟩ access orphan layout.toRawBody) := by
  refine .after (Passing.superclassAt access _) fun _ =>
    .after (Passing.interfacesOf access _) fun _ => ?_
  refine (Brings.forM fun field _ => fieldOf_brings field).before fun _ P s _ t hs hrun => ?_
  obtain ⟨walking, targets, rfl⟩ := prepareWalks_ok hrun
  exact ⟨hs.pool, hs.record, trivial⟩

/-- In front of the methods it is settled whether bodies are walked through. Neither what a constant
of the pool was the first to name nor the order of the fields matters any more. -/
theorem untilMethods_walks (horphan : orphan = true → layout.Walks)
    (hknown : ∀ slot, layout.constants.Orphan slot → orphan = true) :
    Leads (fun s => s.Heeds layout ∧ s.scene.Minds layout name fun _ _ => True)
      (fun _ s => s.walking = true ↔ layout.Walks)
      (untilMethods ⟨namer, none⟩ access orphan layout.toRawBody) := by
  have hheeding : Leads (Heeds layout) (fun _ => Heeds layout)
      (untilMethods ⟨namer, none⟩ access orphan layout.toRawBody) := by
    have hfield (field : RawMember) (hmem : field ∈ layout.members .field) :
        Heeding layout (fieldOf ⟨namer, none⟩ field) := Heeding.memberOf hmem
    refine (Heeding.heading.superclassAt access _).leads.bind fun _ => ?_
    refine (Heeding.heading.interfacesOf access _).leads.bind fun _ => ?_
    refine (Leads.forM fun field hmem => (hfield field hmem).leads).bind fun _ => ?_
    exact (Heeding.prepareWalks horphan).leads
  have hminding (hwalks : layout.Walks) :
      Leads (fun s => s.scene.Minds layout name fun _ _ => True) (fun _ s => s.walking = true)
        (untilMethods ⟨namer, none⟩ access orphan layout.toRawBody) := by
    refine (Minding.heading.superclassAt access _).leads.bind fun _ => ?_
    refine (Minding.heading.interfacesOf access _).leads.bind fun _ => ?_
    have hfields : Leads (fun s => s.scene.Minds layout name fun _ _ => True)
        (fun _ s => s.scene.Minds layout name fun walking _ =>
          False ∨ KeepsLiteral layout → walking = true)
        (layout.fields.forM (memberOf ⟨namer, none⟩ .field)) := fun s value t hs hrun =>
      fields_minds s value t (hs.imp fun _ _ _ => False.elim) hrun
    refine hfields.bind fun _ =>
      (prepareWalks_minds fun walking _ hfound => ?_).imp fun _ _ h => h.attention.1
    -- each reason for a walk has been noticed by now
    obtain @⟨_, hslot⟩ | @⟨field, text, hfield, htext, hliteral⟩ | @⟨_, hmajor, hloader⟩ := hwalks
    · exact .inr (.inl (hknown _ hslot))
    · exact .inl (hfound (.inr ⟨field, hfield, text, htext, hliteral⟩))
    · exact .inr (.inr ⟨hmajor, hloader⟩)
  intro s _ t hs hrun
  exact ⟨(hheeding s _ t hs.1 hrun).walking, fun hwalks => hminding hwalks s _ t hs.2 hrun⟩

/-- The rest of a class brings what is in its attributes that are decoded, be it in the fields, in
the methods with their bodies, or in the class. -/
theorem classBodyOf_retains (horphan : orphan = true → layout.Walks)
    (hknown : ∀ slot, layout.constants.Orphan slot → orphan = true) :
    Leads (fun s => s.Retains layout (fun _ => True) (fun _ => False) ∧ s.Heeds layout ∧
        s.scene.Minds layout name fun _ _ => True)
      (fun record _ => ∀ retention, record.retains retention = true ↔
        layout.Decodes (AttributeKind.Counts retention))
      (classBodyOf ⟨namer, none⟩ orphan layout.toRawBody) := by
  rw [classBodyOf_eq]
  refine Leads.record.bind fun found => ?_
  dsimp only
  have huntil : Leads (fun s => s.Retains layout (fun _ => True) (fun _ => False) ∧ s.Heeds layout ∧
        s.scene.Minds layout name fun _ _ => True)
      (fun _ => Retains layout (fun walking => walking = true ↔ layout.Walks) fun other =>
        False ∨ ∃ field ∈ layout.fields, ∃ raw ∈ field.attributes,
          raw.Meets layout.constants (AttributeKind.Counts other))
      (untilMethods ⟨namer, none⟩ found.access orphan layout.toRawBody) := by
    intro s _ t hs hrun
    have ht := untilMethods_brings _ s _ t hs.1 hrun
    exact ⟨ht.pool, ht.record, untilMethods_walks horphan hknown s _ t hs.2 hrun⟩
  refine huntil.bind fun _ => ?_
  refine (Brings.forM fun method _ => methodOf_brings method) _ |>.bind fun _ => ?_
  refine Leads.bind (Passing.tell .membersEnd _) fun _ =>
    Leads.bind (Passing.turn none _) fun _ => ?_
  refine Leads.bind (attributesOf_brings layout.attributes _) fun _ => ?_
  intro s record t hs hrun retention
  obtain ⟨rfl, other, hother, rfl⟩ := ok_of_finish hrun
  have hretains := hs.record other hother retention
  rw [false_or, ← Layout.Decodes.iff_parts] at hretains
  rw [← hretains]
  cases retention <;> rfl

end Decode

/-- **A class retains annotations if there are any.** When a class file is accepted, it is on record
that there are annotations that are visible at run time exactly if one of the attributes for these
that are decoded has one, or if one is a default value or inside of it; and that there are others
exactly if one of the attributes for those has one. Decoded are the attributes of the class and of
its members, and those in method bodies if these are walked through. -/
theorem Session.decode_retains {options : Options} {bytes : Bytes} {session after : Session}
    {record : Record} (h : session.decode options bytes = (.ok record, after)) :
    ∃ layout trailing, Layout.form.Fits layout ∧ bytes = Layout.form.encode layout ++ trailing ∧
      (record.runtimeAnnotations = true ↔
        layout.Decodes (AttributeKind.Retains .runtime) ∨ layout.Decodes AttributeKind.Presets) ∧
      (record.compiledAnnotations = true ↔ layout.Decodes (AttributeKind.Retains .compiled)) := by
  obtain ⟨layout, trailing, hfits, hbytes, s, hrun, rfl⟩ := decode_eq_ok_iff.1 h
  obtain ⟨⟨header, orphan⟩, u, hheader, hbody⟩ := EStateM.ok_of_bind hrun
  obtain ⟨hheeds, horphan⟩ := Decode.heeds_of_classHeaderOf rfl (Bool.and_false _) hheader
  obtain ⟨hminds, hknown⟩ := Decode.minds_of_classHeaderOf rfl hheader
  obtain ⟨type, -, hrecord, -, hlike⟩ := Decode.classHeaderOf_record rfl hheader
  have hopened : u.Retains layout (fun _ => True) fun _ => False := by
    refine ⟨hlike, fun found hfound retention => ?_, trivial⟩
    cases hrecord.symm.trans hfound
    cases retention <;> exact iff_of_false Bool.false_ne_true id
  have hretains := Decode.classBodyOf_retains horphan hknown u record s
    ⟨hopened, hheeds, hminds.imp fun _ _ _ => trivial⟩ hbody
  refine ⟨layout, trailing, hfits, hbytes, ?_, ?_⟩
  · rw [← Layout.Decodes.or_iff, ← AttributeKind.counts_runtime]
    exact hretains .runtime
  · rw [← AttributeKind.counts_compiled]
    exact hretains .compiled

/-- A class `A` in which a local variable of a method body has an annotation that is not visible at
run time. -/
def hidingVariable : Layout where
  minor := 0
  major := 52
  pool := [0, 8, 1, 0, 1, 65, 7, 0, 1, 1, 0, 1, 109, 1, 0, 3, 40, 41, 86, 1, 0, 4, 67, 111, 100,
    101, 1, 0, 31, 82, 117, 110, 116, 105, 109, 101, 73, 110, 118, 105, 115, 105, 98, 108, 101, 84,
    121, 112, 101, 65, 110, 110, 111, 116, 97, 116, 105, 111, 110, 115, 1, 0, 3, 76, 65, 59]
  access := 0x21
  name := 2
  superclass := 0
  interfaces := []
  fields := []
  methods := [⟨1, 3, 4, [⟨5, RawCode.form.encode ⟨0, 1, [177], [],
    [⟨6, [0, 1, 0x40, 0, 1, 0, 0, 0, 1, 0, 0, 0, 0, 7, 0, 0]⟩]⟩⟩]⟩]
  attributes := []

/-- The body is walked through, for nothing else names the class constant. So the annotation in it
counts, which is on the type of a local variable, and is kept in compiled classes only. -/
theorem Session.decode_retains_of_variable :
    ∃ record after, Session.decode {} (Layout.form.encode hidingVariable) {} = (.ok record, after) ∧
      record.runtimeAnnotations = false ∧ record.compiledAnnotations = true ∧
      ∃ layout trailing, Layout.form.Fits layout ∧
        Layout.form.encode hidingVariable = Layout.form.encode layout ++ trailing ∧
        (record.runtimeAnnotations = true ↔
          layout.Decodes (AttributeKind.Retains .runtime) ∨ layout.Decodes AttributeKind.Presets) ∧
        (record.compiledAnnotations = true ↔ layout.Decodes (AttributeKind.Retains .compiled)) := by
  have hflags : (Session.decode {} (Layout.form.encode hidingVariable) {}).1.toOption.map
      (fun record => (record.runtimeAnnotations, record.compiledAnnotations)) =
        some (false, true) := by
    decide +kernel
  obtain ⟨record, after, hrun, hsame⟩ := Session.decode_of_map hflags
  obtain ⟨hruntime, hcompiled⟩ := Prod.mk.inj hsame
  exact ⟨record, after, hrun, hruntime, hcompiled,
    @Session.decode_retains {} _ {} after record hrun⟩

/-- An annotation `A` whose element has an annotation as its default value. -/
def presettingElement : Layout where
  minor := 0
  major := 52
  pool := [0, 7, 1, 0, 1, 65, 7, 0, 1, 1, 0, 1, 109, 1, 0, 5, 40, 41, 76, 65, 59, 1, 0, 17, 65, 110,
    110, 111, 116, 97, 116, 105, 111, 110, 68, 101, 102, 97, 117, 108, 116, 1, 0, 3, 76, 65, 59]
  access := 0x2601
  name := 2
  superclass := 0
  interfaces := []
  fields := []
  methods := [⟨0x401, 3, 4, [⟨5, [64, 0, 6, 0, 0]⟩]⟩]
  attributes := []

/-- The default value counts as an annotation that is visible at run time, and there is no attribute
with one. -/
theorem Session.decode_retains_differs :
    ∃ record after,
      Session.decode {} (Layout.form.encode presettingElement) {} = (.ok record, after) ∧
      Layout.form.Fits presettingElement ∧ record.runtimeAnnotations = true ∧
      ¬presettingElement.Decodes (AttributeKind.Retains .runtime) := by
  have hflag : (Session.decode {} (Layout.form.encode presettingElement) {}).1.toOption.map
      (·.runtimeAnnotations) = some true := by decide +kernel
  obtain ⟨record, after, hrun, hruntime⟩ := Session.decode_of_map hflag
  have hname : presettingElement.constants.utf8 5 = .ok "AnnotationDefault" := by decide +kernel
  have hkind : AttributeKind.ofName "AnnotationDefault" = .annotationDefault := by decide +kernel
  refine ⟨record, after, hrun, by decide +kernel, hruntime, fun h => ?_⟩
  cases h with
  | ofClass hraw => exact nomatch hraw
  | @ofMember kind _ _ hmember hraw hmeets =>
    cases kind with
    | field => exact nomatch hmember
    | method =>
      obtain rfl := List.mem_singleton.1 hmember
      obtain rfl := List.mem_singleton.1 hraw
      obtain ⟨name, hother, hretains⟩ := hmeets
      cases hname.symm.trans hother
      rw [hkind] at hretains
      exact nomatch hretains
  | ofBody _ hmethod hraw hencloses =>
    obtain rfl := List.mem_singleton.1 hmethod
    obtain rfl := List.mem_singleton.1 hraw
    exact nomatch hname.symm.trans hencloses.1

end ClassFile
