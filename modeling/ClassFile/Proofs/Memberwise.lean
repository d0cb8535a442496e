import ClassFile.Decoder.Class
import ClassFile.Proofs.Lockstep

/-!
# Members and classes in lockstep

What `ClassFile.Decode.Lockstep` is for the readers of attributes, `ClassFile.Decode.Memberwise`
is for the lists of fields and methods and for all that follows the name of a class. A relation
has to respect two more things: that the record gets a superclass, interfaces and members,
while what the header says of the class stays; and that the decoder turns to another member
(`ClassFile.Decode.Recording`). Both are done without a look at the input. What comes in front of
the methods needs no more than `ClassFile.Decode.Fieldwise`, which leaves out calls.

The references of the pool come before the record is there, so they need less
(`ClassFile.Decode.Pooled`).
-/

namespace ClassFile

/-- A uniform change that keeps the types of annotations. -/
structure Record.Headed (f : Record → Record) : Prop extends Record.Uniform f where
  annotationTypes (record : Record) : (f record).annotationTypes = record.annotationTypes

/-- The class gets another member, and nothing else is said of it. -/
structure Record.Widens (f : Record → Record) : Prop extends Record.Headed f where
  rest (record : Record) : (f record).backdrop = record.backdrop

namespace Record

/-- A class gets its superclass. -/
theorem headed_superclass (type : TypeName) :
    Headed fun record => { record with superclass := some type } := by
  refine ⟨⟨?_, ?_, ?_, ?_, ?_, ?_, ?_⟩, ?_⟩ <;> intros
  all_goals first | rfl | assumption | exact .inl ‹_›

theorem headed_interfaces (types : List TypeName) :
    Headed fun record => { record with interfaces := types } := by
  refine ⟨⟨?_, ?_, ?_, ?_, ?_, ?_, ?_⟩, ?_⟩ <;> intros
  all_goals first | rfl | assumption | exact .inl ‹_›

theorem widens_field (member : Member) :
    Widens fun record => { record with fields := record.fields.push member } := by
  refine ⟨⟨⟨?_, ?_, ?_, ?_, ?_, ?_, ?_⟩, ?_⟩, ?_⟩ <;> intros
  all_goals first | rfl | assumption | exact .inl ‹_›

/-- It gets a method, which may be its constructor without arguments. -/
theorem widens_method (member : Member) (isDefault : Bool) : Widens fun record =>
    { record with
      defaultConstructor := record.defaultConstructor || isDefault
      methods := record.methods.push member } := by
  refine ⟨⟨⟨?_, ?_, ?_, ?_, ?_, ?_, ?_⟩, ?_⟩, ?_⟩
  case refine_5 =>
    intro record trait h
    cases trait with
    | annotated => exact h
    | retained retention => cases retention <;> exact h
    | constructed => exact Bool.or_eq_true_iff.2 (.inl h)
  case refine_6 =>
    intro record other trait h
    cases trait with
    | annotated => exact .inl h
    | retained retention => cases retention <;> exact .inl h
    | constructed => exact (Bool.or_eq_true_iff.1 h).imp_right fun h =>
      Bool.or_eq_true_iff.2 (.inr h)
  all_goals exact fun _ => rfl

end Record

/-- A descriptor that cannot be split is a fault of the file. -/
theorem Signature.isInternal_of_arguments {text : String} {fault : Fault}
    (h : Signature.arguments text = .error fault) : fault.isInternal = false := by
  have hmap (split : Except MethodFault (List String))
      (h : split.mapError (.method text) = .error fault) : fault.isInternal = false := by
    cases split with
    | ok arguments => exact nomatch h
    | error why =>
      cases h
      rfl
  exact hmap _ h

/-- What is told of the parts of a class, in the order of the file. -/
def Event.isOutline : Event → Bool
  | .superclass _ | .interfaces _ | .field _ | .method _ | .membersEnd => true
  | _ => false

/-- What is known of the class, and what a decoder attends to while it goes on. -/
structure Decoder.Scene where
  pool : Pool
  record : Option Record
  last : Option LastMember
  walking : Bool
  targets : Targets

/-- A decoder without its input, and without what it collects. -/
def Decoder.scene (s : Decoder) : Decoder.Scene where
  pool := s.pool
  record := s.record
  last := s.last
  walking := s.walking
  targets := s.targets

/-- What a decoder attends to: a member, and whether and for what bodies are walked through. -/
structure Decoder.Attention where
  last : Option LastMember
  walking : Bool
  targets : Targets

/-- The decoder attends to something else. -/
def Decoder.attend (s : Decoder) (attention : Decoder.Attention) : Decoder :=
  { s with last := attention.last, walking := attention.walking, targets := attention.targets }

namespace Decode

/-- A relation between steps that the references of a pool respect. -/
structure Pooled (c d : Context) (P : ∀ {α : Type}, Decode α → Decode α → Prop) : Prop
    extends Referring c d P where
  constant (index : UInt16) : P (referClassConstant c index) (referClassConstant d index)
  lookPool {α : Type} {k k' : Decoder → Decode α} :
    (∀ s t, s.pool.Like t.pool → P (k s) (k' t)) → P (get >>= k) (get >>= k')

/-- A relation between steps that is respected when supertypes and members are put on record. -/
structure Heading (c d : Context) (P : ∀ {α : Type}, Decode α → Decode α → Prop) : Prop
    extends Referring c d P where
  updateHeaded {f : Record → Record} :
    Record.Headed f → P (Decode.updateRecord f) (Decode.updateRecord f)
  /-- The listener is told of a part of the class. -/
  announce {event : Event} (h : event.isOutline = true) :
    P (Decode.tell c event) (Decode.tell d event)

/-- A relation between steps that is respected when the parts of a class are put on record, and
when the decoder turns from one to the next. -/
structure Recording (c d : Context) (P : ∀ {α : Type}, Decode α → Decode α → Prop) : Prop
    extends Heading c d P where
  lookScene {α : Type} {k k' : Decoder → Decode α} :
    (∀ s t, s.scene = t.scene → P (k s) (k' t)) → P (get >>= k) (get >>= k')
  record : P Decode.record Decode.record
  attend (g : Decoder.Scene → Decoder.Attention) :
    P (modify fun s => s.attend (g s.scene)) (modify fun s => s.attend (g s.scene))

/-- A relation between steps that all that follows the name of a class respects, but for method
bodies that are walked through. -/
structure Fieldwise (c d : Context) (P : ∀ {α : Type}, Decode α → Decode α → Prop) : Prop
    extends Signing c d P, Recording c d P where
  annotationType (retention : Retention) (access : Access) (index : UInt16) :
    P (annotationType c retention access index) (annotationType d retention access index)
  sign (text : String) :
    P (Decode.updateMember fun member => { member with signature := some text })
      (Decode.updateMember fun member => { member with signature := some text })

/-- **A relation between steps that all that follows the name of a class respects.** -/
structure Memberwise (c d : Context) (P : ∀ {α : Type}, Decode α → Decode α → Prop) : Prop
    extends Lockstep c d P, Fieldwise c d P

namespace Pooled

variable {c d : Context} {P : ∀ {α : Type}, Decode α → Decode α → Prop}

/-- The entry of a slot is referred to by what it names: a class for a member, and the classes in a
descriptor. All other entries name nothing. -/
theorem referEntry (h : Pooled c d P) (slot : Nat) :
    P (referEntry c slot) (referEntry d slot) := by
  refine h.lookPool fun s t hst => ?_
  rcases hst.slot slot with ⟨hs, ht⟩ | ⟨found, other, hs, ht, hsame⟩
  · rw [hs, ht]
    exact h.pure ()
  · rw [hs, ht]
    -- the entries are the same, unless both are class constants, which refer to nothing here
    cases found <;> cases other <;> cases hsame
    all_goals first
      | exact h.constant _
      | exact h.referDescriptor _ 0
      | exact h.pure ()

/-- What the pool names is referred to slot by slot, for as many slots as there are. -/
theorem referPool (h : Pooled c d P) : P (referPool c) (referPool d) := by
  refine h.lookPool fun s t hst => ?_
  rw [hst.size]
  exact h.forM _ fun slot _ => h.referEntry slot

end Pooled

namespace Heading

variable {c d : Context} {P : ∀ {α : Type}, Decode α → Decode α → Prop}

/-- A superclass is referred to if it has an index other than zero. It is told of and put on
record. -/
theorem superclassAt (h : Heading c d P) (access : Access) (index : UInt16) :
    P (superclassAt c access index) (superclassAt d access index) := by
  rw [Decode.superclassAt, Decode.superclassAt]
  split
  · have hrest (type : TypeName) :
        P (Decode.tell c (.superclass type) >>= fun _ =>
            Decode.updateRecord fun record => { record with superclass := some type })
          (Decode.tell d (.superclass type) >>= fun _ =>
            Decode.updateRecord fun record => { record with superclass := some type }) :=
      h.bind (h.announce rfl) fun _ => h.updateHeaded (Record.headed_superclass type)
    have hclass := h.bind (h.referClass index access) hrest
    simp only [Decode.referClass, bind_assoc, pure_bind] at hclass
    exact hclass
  · exact h.pure ()

/-- An interface is referred to when its index is read. -/
theorem interfaceAt (h : Heading c d P) (access : Access) (index : UInt16) :
    P (interfaceAt c access index) (interfaceAt d access index) :=
  h.referClass index access

/-- And all of them are told of and put on record in the end, if there are any. -/
theorem keepInterfaces (h : Heading c d P) (types : List TypeName) :
    P (keepInterfaces c types) (keepInterfaces d types) := by
  rw [Decode.keepInterfaces, Decode.keepInterfaces]
  split
  · exact h.updateHeaded (Record.headed_interfaces types)
  · exact h.bind (h.announce rfl) fun _ => h.updateHeaded (Record.headed_interfaces types)

end Heading

namespace Recording

variable {c d : Context} {P : ∀ {α : Type}, Decode α → Decode α → Prop}

/-- A field is opened: what its header says is told of, its descriptor is referred to, and it is put
on record. A field whose type can hold a class literal may settle that bodies are walked through. -/
theorem openField (h : Recording c d P) (header : MemberHeader) :
    P (openField c header) (openField d header) := by
  have hrest : P
      (Decode.tell c (.field (.field header.access header.name header.descriptor)) >>= fun _ =>
        referDescriptor c header.descriptorIndex header.access >>= fun _ =>
        Decode.updateRecord (fun record => { record with
          fields := record.fields.push (.field header.access header.name header.descriptor) }) >>=
          fun _ => modify fun s => { s with last := some .field })
      (Decode.tell d (.field (.field header.access header.name header.descriptor)) >>= fun _ =>
        referDescriptor d header.descriptorIndex header.access >>= fun _ =>
        Decode.updateRecord (fun record => { record with
          fields := record.fields.push (.field header.access header.name header.descriptor) }) >>=
          fun _ => modify fun s => { s with last := some .field }) := by
    refine h.bind (h.announce rfl) fun _ => h.bind (h.referDescriptor _ _) fun _ => ?_
    refine h.bind (h.updateHeaded (Record.widens_field _).toHeaded) fun _ => ?_
    exact h.attend fun scene => ⟨some .field, scene.walking, scene.targets⟩
  rw [Decode.openField, Decode.openField]
  split
  · exact h.bind (h.attend fun scene => ⟨scene.last, true, scene.targets⟩) fun _ => hrest
  · exact hrest

/-- It is settled in front of the methods whether bodies are walked through, by what can be seen in
the scene. -/
theorem prepareWalks (h : Recording c d P) (orphan : Bool) :
    P (prepareWalks orphan) (prepareWalks orphan) := by
  refine h.bind h.record fun record => ?_
  let g (scene : Decoder.Scene) : Decoder.Attention :=
    let forName := scene.pool.findMethod ⟨"java/lang/Class", "forName", loaderDescriptor⟩
    let walking := scene.walking || orphan ||
      record.major = lastMajorWithoutLiterals && forName.isSome
    if walking then
      let classDollar := scene.pool.findMethod ⟨record.name.binary, "class$", loaderDescriptor⟩
      ⟨scene.last, walking, ⟨forName, classDollar⟩⟩
    else ⟨scene.last, scene.walking, scene.targets⟩
  have hg (s : Decoder) : s.attend (g s.scene) =
      let forName := s.pool.findMethod ⟨"java/lang/Class", "forName", loaderDescriptor⟩
      let walking := s.walking || orphan ||
        record.major = lastMajorWithoutLiterals && forName.isSome
      if walking then
        let classDollar := s.pool.findMethod ⟨record.name.binary, "class$", loaderDescriptor⟩
        { s with walking, targets := ⟨forName, classDollar⟩ }
      else s := by
    dsimp only [g, Decoder.scene]
    split <;> rfl
  simp only [← hg]
  exact h.attend g

/-- A method is opened in the same way, without a look at what its type can hold. -/
theorem openMethod (h : Recording c d P) (header : MemberHeader) :
    P (openMethod c header) (openMethod d header) := by
  rw [Decode.openMethod, Decode.openMethod]
  cases harguments : Signature.arguments header.descriptor with
  | error fault => exact h.throw (Signature.isInternal_of_arguments harguments)
  | ok arguments =>
    refine h.bind (h.pure arguments) fun _ => h.bind (h.announce rfl) fun _ => ?_
    refine h.bind (h.referDescriptor _ _) fun _ => ?_
    refine h.bind (h.updateHeaded (Record.widens_method _ _).toHeaded) fun _ => ?_
    exact h.attend fun scene => ⟨some .method, scene.walking, scene.targets⟩

end Recording

namespace Fieldwise

variable {c d : Context} {P : ∀ {α : Type}, Decode α → Decode α → Prop}

/-- A signature is referred to, tried out, and stored for the class or for a member. -/
theorem signatureAttribute (h : Fieldwise c d P) (site : Site) (access : Access) :
    P (signatureAttribute c site access) (signatureAttribute d site access) :=
  h.toSigning.signatureAttribute h.sign site access

/-- A table of attributes, given what is done with a method body in it. -/
theorem attributes (h : Fieldwise c d P) {onCode onCode' : Decode Unit}
    (hcode : P onCode onCode') (site : Site) (access : Access) :
    P (attributes c onCode site access) (attributes d onCode' site access) :=
  h.toSigning.attributes (fun retention => h.annotationType retention access)
    h.signatureAttribute hcode site

/-- The header of a member is read and its texts are looked up, before anything is told or put on
record. -/
theorem memberHeader (h : Fieldwise c d P) : P memberHeader memberHeader := by
  refine h.bind h.u2 fun access => ?_
  refine h.bind h.u2 fun nameIndex => h.bind (h.utf8 _) fun name => ?_
  refine h.bind h.u2 fun descriptorIndex => h.bind (h.utf8 _) fun descriptor => ?_
  exact h.pure _

theorem superclass (h : Fieldwise c d P) (access : Access) :
    P (superclass c access) (superclass d access) :=
  h.bind h.u2 fun index => h.superclassAt access index

theorem interfaces (h : Fieldwise c d P) (access : Access) :
    P (interfaces c access) (interfaces d access) := by
  refine h.bind h.count fun n => h.bind (h.listOf n ?_) fun types => h.keepInterfaces types
  exact h.bind h.u2 fun index => h.interfaceAt access index

theorem field (h : Fieldwise c d P) : P (field c) (field d) := by
  refine h.bind h.memberHeader fun header => h.bind (h.openField header) fun _ => ?_
  exact h.attributes (h.pure ()) .field header.access

end Fieldwise

namespace Memberwise

variable {c d : Context} {P : ∀ {α : Type}, Decode α → Decode α → Prop}

/-- A method body is walked through or passed over, depending on what was settled. -/
theorem code (h : Memberwise c d P) : P (code c) (code d) := by
  refine h.toLockstep.code h.signatureAttribute fun code => h.lookScene fun s t hst => ?_
  rw [show s.targets = t.targets from congrArg Decoder.Scene.targets hst]
  exact h.walk t.targets code

/-- A method is opened, and then its attributes are read with the bodies among them. -/
theorem method (h : Memberwise c d P) : P (method c) (method d) := by
  refine h.bind h.memberHeader fun header => h.bind (h.openMethod header) fun _ => ?_
  refine h.lookScene fun s t hst => ?_
  rw [show s.walking = t.walking from congrArg Decoder.Scene.walking hst]
  refine h.toFieldwise.attributes ?_ _ header.access
  split
  · exact h.code
  · exact h.pure ()

/-- **Everything after the name of a class**, given what becomes of the record at the end. -/
theorem classBody (h : Memberwise c d P) (hfinish : P finish finish) (orphan : Bool) :
    P (classBody c orphan) (classBody d orphan) := by
  refine h.bind h.record fun record => h.bind (h.superclass record.access) fun _ => ?_
  refine h.bind (h.interfaces record.access) fun _ => ?_
  refine h.bind h.count fun n => h.bind (h.repeated n h.field) fun _ => ?_
  refine h.bind (h.prepareWalks orphan) fun _ => ?_
  refine h.bind h.count fun n => h.bind (h.repeated n h.method) fun _ => ?_
  refine h.bind (h.announce rfl) fun _ => ?_
  refine h.bind (h.attend fun scene => ⟨none, scene.walking, scene.targets⟩) fun _ => ?_
  exact h.bind (h.toFieldwise.attributes (h.pure ()) .type record.access) fun _ => hfinish

end Memberwise

end Decode

end ClassFile
