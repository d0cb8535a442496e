import ClassFile.Layout.Annotations

/-!
# What attributes leave alone

Whatever attributes put on record, the outlines stay as they are: the kinds, names and descriptors
of the members, and what the header says of the class. Three kinds of changes are told apart. What
is put on record of a member is *marginal* if it keeps the outline and the signature
(`ClassFile.Member.Marginal`); what is put on record of the class is marginal if it keeps the
supertypes and the members (`ClassFile.Record.Marginal`), and *aside* if it keeps the nested classes
and the place of the class as well (`ClassFile.Record.Aside`).

Of a decoder the readers of attributes look at little more than where they are
(`ClassFile.Decoder.glance`).
-/

namespace ClassFile


/-- What the header of a member says. -/
def Member.header (member : Member) : Access × String × String :=
  (member.access, member.name, member.descriptor)

/-- What does not change of a member: its kind and its header. -/
def Member.outline (member : Member) : MemberKind × Access × String × String :=
  (member.kind, member.header)

/-- A change of a member that keeps what its header and its signature say. -/
structure Member.Marginal (f : Member → Member) : Prop where
  kind (member : Member) : (f member).kind = member.kind
  access (member : Member) : (f member).access = member.access
  name (member : Member) : (f member).name = member.name
  descriptor (member : Member) : (f member).descriptor = member.descriptor
  signature (member : Member) : (f member).signature = member.signature

theorem Member.Marginal.header {f : Member → Member} (h : Member.Marginal f) (member : Member) :
    (f member).header = member.header := by
  rw [Member.header, h.access, h.name, h.descriptor]
  rfl

theorem Member.Marginal.outline {f : Member → Member} (h : Member.Marginal f) (member : Member) :
    (f member).outline = member.outline := by
  rw [Member.outline, h.kind, h.header]
  rfl

/-- What a record may come to have: a type of annotations, annotations of a retention, and a
constructor without arguments that everybody can use. -/
inductive Record.Trait where
  | annotated (type : TypeName)
  | retained (retention : Retention)
  | constructed

/-- The record has the trait. -/
def Record.Has (record : Record) : Record.Trait → Prop
  | .annotated type => type ∈ record.annotationTypes
  | .retained .runtime => record.runtimeAnnotations = true
  | .retained .compiled => record.compiledAnnotations = true
  | .constructed => record.defaultConstructor = true

/-- A record without its members, its traits, and what is put in when the decoding ends. -/
def Record.backdrop (record : Record) : Record :=
  { record with
    fields := #[]
    methods := #[]
    annotationTypes := ∅
    runtimeAnnotations := false
    compiledAnnotations := false
    defaultConstructor := false
    references := ∅
    imports := ∅
    api := none }

/-- A change that keeps what the header says of the class, and that is the same for every record. -/
structure Record.Uniform (f : Record → Record) : Prop where
  name (record : Record) : (f record).name = record.name
  major (record : Record) : (f record).major = record.major
  minor (record : Record) : (f record).minor = record.minor
  access (record : Record) : (f record).access = record.access
  /-- Traits are never taken away. -/
  keeps (record : Record) (trait : Record.Trait) : record.Has trait → (f record).Has trait
  /-- Those that are added are the same for every record. -/
  adds (record other : Record) (trait : Record.Trait) :
    (f record).Has trait → record.Has trait ∨ (f other).Has trait
  /-- So is what becomes of the rest. -/
  backdrop (record : Record) : (f record).backdrop = (f record.backdrop).backdrop

/-- A uniform change that keeps the supertypes, the members and everything that is put in when the
decoding ends. -/
structure Record.Marginal (f : Record → Record) : Prop extends Record.Uniform f where
  superclass (record : Record) : (f record).superclass = record.superclass
  interfaces (record : Record) : (f record).interfaces = record.interfaces
  fields (record : Record) : (f record).fields = record.fields
  methods (record : Record) : (f record).methods = record.methods

/-- A marginal change that keeps the nested classes and the place of the class as well. -/
structure Record.Aside (f : Record → Record) : Prop extends Record.Marginal f where
  innerClasses (record : Record) : (f record).innerClasses = record.innerClasses
  enclosingMethod (record : Record) : (f record).enclosingMethod = record.enclosingMethod

/-- What the readers of attributes ask a decoder about, apart from its input and its
pool: where they are, and what a loaded constant says. -/
structure Decoder.Glance where
  last : Option LastMember
  method : Option Member
  text : UInt16 → Option String

/-- A look at a decoder. -/
def Decoder.glance (s : Decoder) : Decoder.Glance where
  last := s.last
  method := s.record.bind (·.methods.back?)
  text := s.pool.stringConstant

/-- What most readers of attributes ask about: where they are. -/
structure Decoder.Glimpse where
  last : Option LastMember
  text : UInt16 → Option String

/-- A look at a decoder that does not go as far as its record. -/
def Decoder.glimpse (s : Decoder) : Decoder.Glimpse where
  last := s.last
  text := s.pool.stringConstant

theorem Decoder.glimpse_eq {s t : Decoder} (h : s.glance = t.glance) : s.glimpse = t.glimpse :=
  congrArg (fun glance : Decoder.Glance => (⟨glance.last, glance.text⟩ : Decoder.Glimpse)) h

/-- What is told of an attribute, but for those that say where classes are nested. -/
def Event.isRemark : Event → Bool
  | .deprecated | .signature _ | .constant _ | .annotated _ | .annotationDefault _ _ => true
  | .parameter _ => true
  | _ => false

/-- What is told of an attribute. -/
def Event.isDetail : Event → Bool
  | .innerClass _ | .enclosingMethod _ => true
  | event => event.isRemark

theorem Event.isDetail_of_isRemark {event : Event} (h : event.isRemark = true) :
    event.isDetail = true := by
  cases event <;> first | rfl | exact h

/-- An entry of the table of nested classes. -/
def Record.putInnerClass (entry : InnerClass) (record : Record) : Record :=
  { record with
    innerAccess := if entry.inner = some record.name then some entry.access else record.innerAccess
    innerClasses := record.innerClasses.push entry }

/-- Where the class stands. -/
def Record.putEnclosingMethod (place : EnclosingMethod) (record : Record) : Record :=
  { record with enclosingMethod := some place }

theorem Record.marginal_putInnerClass (entry : InnerClass) :
    Record.Marginal (Record.putInnerClass entry) := by
  refine ⟨⟨?_, ?_, ?_, ?_, ?_, ?_, ?_⟩, ?_, ?_, ?_, ?_⟩ <;> intros
  all_goals first | rfl | assumption | exact .inl ‹_›

theorem Record.marginal_putEnclosingMethod (place : EnclosingMethod) :
    Record.Marginal (Record.putEnclosingMethod place) := by
  refine ⟨⟨?_, ?_, ?_, ?_, ?_, ?_, ?_⟩, ?_, ?_, ?_, ?_⟩ <;> intros
  all_goals first | rfl | assumption | exact .inl ‹_›

/-- What attributes put on record of the class leaves the rest alone. -/
theorem Record.aside_annotation (found : Annotation) : Record.Aside fun record =>
    { record with annotations := record.annotations.push found } := by
  refine ⟨⟨⟨?_, ?_, ?_, ?_, ?_, ?_, ?_⟩, ?_, ?_, ?_, ?_⟩, ?_, ?_⟩ <;> intros
  all_goals first | rfl | assumption | exact .inl ‹_›

theorem Record.aside_deprecated :
    Record.Aside fun record => { record with deprecated := true } := by
  refine ⟨⟨⟨?_, ?_, ?_, ?_, ?_, ?_, ?_⟩, ?_, ?_, ?_, ?_⟩, ?_, ?_⟩ <;> intros
  all_goals first | rfl | assumption | exact .inl ‹_›

theorem Record.aside_sourceFile (name : String) : Record.Aside fun record =>
    { record with sourceFile := some name } := by
  refine ⟨⟨⟨?_, ?_, ?_, ?_, ?_, ?_, ?_⟩, ?_, ?_, ?_, ?_⟩, ?_, ?_⟩ <;> intros
  all_goals first | rfl | assumption | exact .inl ‹_›

theorem Record.aside_signature (text : String) : Record.Aside fun record =>
    { record with signature := some text } := by
  refine ⟨⟨⟨?_, ?_, ?_, ?_, ?_, ?_, ?_⟩, ?_, ?_, ?_, ?_⟩, ?_, ?_⟩ <;> intros
  all_goals first | rfl | assumption | exact .inl ‹_›

/-- A type of annotations is found, and how long these are kept. -/
def Record.note (type : TypeName) (retention : Retention) (record : Record) : Record :=
  let record := { record with annotationTypes := record.annotationTypes.insert type }
  match retention with
  | .runtime => { record with runtimeAnnotations := true }
  | .compiled => { record with compiledAnnotations := true }

theorem Record.has_note {type : TypeName} {retention : Retention} {record : Record}
    {trait : Record.Trait} : (record.note type retention).Has trait ↔
      record.Has trait ∨ trait = .annotated type ∨ trait = .retained retention := by
  cases trait with
  | annotated other =>
    have hinsert : (record.note type retention).Has (.annotated other) ↔
        other ∈ record.annotationTypes.insert type := by cases retention <;> rfl
    rw [hinsert, Std.ExtTreeSet.mem_insert, Std.LawfulEqCmp.compare_eq_iff_eq]
    simp [Has, eq_comm, or_comm]
  | retained other => cases retention <;> cases other <;> simp [note, Has]
  | constructed => cases retention <;> simp [note, Has]

/-- Traits are found one by one. -/
theorem Record.aside_note (type : TypeName) (retention : Retention) :
    Record.Aside (Record.note type retention) := by
  refine ⟨⟨⟨?_, ?_, ?_, ?_, ?_, ?_, ?_⟩, ?_, ?_, ?_, ?_⟩, ?_, ?_⟩
  case refine_5 => exact fun record trait h => has_note.2 (.inl h)
  case refine_6 =>
    exact fun record other trait h => (has_note.1 h).imp_right fun hnew => has_note.2 (.inr hnew)
  all_goals cases retention <;> exact fun _ => rfl

/-- Where the annotations in an attribute can be seen, if it has annotations or a value like
those in one. -/
def AttributeKind.retention? : AttributeKind → Option Retention
  | .annotations retention | .parameterAnnotations retention | .typeAnnotations retention =>
    some retention
  | .annotationDefault => some .runtime
  | _ => none

end ClassFile
