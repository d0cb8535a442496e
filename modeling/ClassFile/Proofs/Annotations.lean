import ClassFile.Layout.Annotations
import ClassFile.Proofs.Layout

/-!
# Annotations are read from layouts

What is done with an annotation is done with the types that it names, and with nothing else that
matters: a relation between steps is respected by the actions on an annotation if it is respected
by those on the types in it (`ClassFile.Decode.Noting.valueOf`).

The readers of annotations parse what has the form of annotations
(`ClassFile.Decode.Parses.value`). So whatever is in an attribute that was read with success, it
is written from a list of annotations, and what was done is what is done with that list.
-/

namespace ClassFile

/-! ### Tags -/

namespace RawValue

/-- A tag is known by its letter: no two bytes are written with the same one. -/
theorem tag_eq_of_letter {tag : UInt8} (other : UInt8)
    (h : Char.ofNat tag.toNat = Char.ofNat other.toNat) : other = tag := by
  have hnumber (byte : UInt8) : (Char.ofNat byte.toNat).toNat = byte.toNat := by
    have hvalid : byte.toNat.isValidChar := .inl (Nat.lt_trans byte.toNat_lt (by decide))
    rw [Char.ofNat, dif_pos hvalid]
    rfl
  have hsame := congrArg Char.toNat h
  rw [hnumber, hnumber] at hsame
  exact UInt8.toNat_inj.1 hsame.symm

/-- What a value is, by its tag. A value that fits the layout has one of the tags, and of each tag
the values have one shape only. -/
theorem eq_of_fits {value : Form RawValue} {raw : RawValue} (h : (tail value).Fits raw) :
    match Char.ofNat raw.tag.toNat with
    | 'e' => ∃ type name, raw = .enumConstant type name
    | 'c' => ∃ type, raw = .classLiteral type
    | '@' => ∃ type elements, raw = .nested type elements
    | '[' => ∃ values, raw = .array values
    | letter => isConstantTag letter = true := by
  cases raw with
  | constant tag index =>
    have hconstant : isConstantTag (Char.ofNat tag.toNat) = true := h
    generalize hletter : Char.ofNat (RawValue.constant tag index).tag.toNat = letter
    rw [show Char.ofNat tag.toNat = letter from hletter] at hconstant
    split
    · exact nomatch hconstant
    · exact nomatch hconstant
    · exact nomatch hconstant
    · exact nomatch hconstant
    · exact hconstant
  | enumConstant type name => exact ⟨type, name, rfl⟩
  | classLiteral type => exact ⟨type, rfl⟩
  | nested type elements => exact ⟨type, elements, rfl⟩
  | array values => exact ⟨values, rfl⟩

/-- There are thirteen tags. All other letters are refused when a value is read. -/
theorem letter_of_fits {value : Form RawValue} {raw : RawValue} (h : (tail value).Fits raw) :
    Char.ofNat raw.tag.toNat ∈
      ['B', 'C', 'D', 'F', 'I', 'J', 'S', 'Z', 's', 'e', 'c', '@', '['] := by
  cases raw with
  | constant tag index =>
    have hconstant : Char.ofNat tag.toNat ∈ "BCDFIJSZs".toList := List.contains_iff_mem.1 h
    exact List.mem_append_left ['e', 'c', '@', '['] hconstant
  | enumConstant | classLiteral | nested | array => exact List.contains_iff_mem.1 rfl

end RawValue

namespace Decode

/-! ### Acting on annotations in lockstep -/

section Acting

variable {c d : Context} {P : ∀ {α : Type}, Decode α → Decode α → Prop}

/-- A constant of a certain tag is asked for, and it is a fault if there is another one in its
place. -/
theorem Asking.constantOf (h : Asking P) (tag : UInt8) (index : UInt16) :
    P (constantOf tag index) (constantOf tag index) := by
  have hint (f : Int32 → Value) : P (Decode.intConstant index >>= fun n => Pure.pure (f n))
      (Decode.intConstant index >>= fun n => Pure.pure (f n)) :=
    h.bind (h.intConstant index) fun _ => h.pure _
  rw [Decode.constantOf]
  split
  -- the five kinds of integers, and then the constants that have an entry of their own
  · exact hint _
  · exact hint _
  · exact hint _
  · exact hint _
  · exact hint _
  · refine h.entry index (fun _ _ => rfl) (fun _ _ => rfl) (fun _ _ => rfl) fun found _ => ?_
    cases found with
    | long value => exact h.pure _
    | _ => exact h.throw rfl
  · refine h.entry index (fun _ _ => rfl) (fun _ _ => rfl) (fun _ _ => rfl) fun found _ => ?_
    cases found with
    | float bits => exact h.pure _
    | _ => exact h.throw rfl
  · refine h.entry index (fun _ _ => rfl) (fun _ _ => rfl) (fun _ _ => rfl) fun found _ => ?_
    cases found with
    | double bits => exact h.pure _
    | _ => exact h.throw rfl
  · exact h.bind (h.utf8 index) fun _ => h.pure _
  · exact h.throw rfl

/-- Elements are respected if their values are. Their names are looked up one by one, and a name
that comes again replaces what it stood for. -/
theorem Asking.elementsOf (h : Asking P) {act act' : RawValue → Decode Value}
    (raws : List (UInt16 × RawValue)) (hact : ∀ raw ∈ raws, P (act raw.2) (act' raw.2))
    (found : List (String × Value)) :
    P (elementsOf act raws found) (elementsOf act' raws found) := by
  induction raws generalizing found with
  | nil => exact h.pure found
  | cons raw raws ih =>
    refine h.bind (h.utf8 raw.1) fun name => h.bind (hact raw List.mem_cons_self) fun value => ?_
    exact ih (fun other hother => hact other (List.mem_cons_of_mem raw hother)) _

namespace Noting

variable (h : Noting c d P) {site : Site} {retention : Retention} {access : Access}
include h

/-- An annotation is respected if its type and its elements are, be it within another one or by
itself. -/
theorem annotationOf {act act' : RawValue → Decode Value} (raw : RawAnnotation)
    (htype : P (annotationType c retention access raw.type)
      (annotationType d retention access raw.type))
    (hact : ∀ element ∈ raw.elements, P (act element.2) (act' element.2)) :
    P (annotationOf c act site retention access raw)
      (annotationOf d act' site retention access raw) := by
  refine h.bind (h.utf8 raw.type) fun text => h.bind (h.note _ retention) fun _ => ?_
  exact h.bind htype fun _ => h.bind (h.elementsOf raw.elements hact []) fun _ => h.pure _

/-- **What is done with a value** is done with the types that it names. -/
theorem valueOf (levels : Nat) (raw : RawValue)
    (htype : ∀ index, raw.Names index → P (annotationType c retention access index)
      (annotationType d retention access index)) :
    P (valueOf c site retention access levels raw)
      (valueOf d site retention access levels raw) := by
  induction levels generalizing raw with
  | zero => exact h.throw rfl
  | succ levels ih =>
    cases raw with
    | constant tag index => exact h.constantOf tag index
    | enumConstant type name =>
      refine h.bind (htype type (.enumConstant name)) fun _ => ?_
      exact h.bind (h.utf8 name) fun _ => h.pure _
    | classLiteral type => exact h.bind (htype type .classLiteral) fun _ => h.pure _
    | nested type elements =>
      refine h.bind (h.annotationOf ⟨type, elements⟩ (htype type (.nested elements)) ?_)
        fun _ => h.pure _
      exact fun element helement => ih element.2 fun index hindex =>
        htype index (.element helement hindex)
    | array values =>
      refine h.bind (h.mapM values fun raw hraw => ?_) fun _ => h.pure _
      exact ih raw fun index hindex => htype index (.item hraw hindex)

/-- An annotation that stands by itself is one of as many levels as are allowed. An annotation
within it stands one level deeper. -/
theorem outerAnnotationOf (raw : RawAnnotation)
    (htype : ∀ index, raw.Names index → P (annotationType c retention access index)
      (annotationType d retention access index)) :
    P (outerAnnotationOf c site retention access raw)
      (outerAnnotationOf d site retention access raw) := by
  refine h.annotationOf raw (htype raw.type (.nested _)) fun element helement => ?_
  exact h.valueOf _ element.2 fun index hindex => htype index (.element helement hindex)

/-- What was found is told of, and noted for the class, for a member, or for a parameter, depending
on where it stands. -/
theorem keepAnnotationOf (found : Annotation) :
    P (Decode.keepAnnotationOf c site found) (Decode.keepAnnotationOf d site found) := by
  refine h.bind (h.tell rfl) fun _ => ?_
  split
  · exact h.updateRecord (Record.aside_annotation found)
  · exact h.updateMember (by constructor <;> intro <;> rfl)

/-- Annotations that stand in a table are gone through one by one, in the order of the table. -/
theorem annotationsOf (raws : List RawAnnotation)
    (htype : ∀ raw ∈ raws, ∀ index, raw.Names index →
      P (annotationType c retention access index) (annotationType d retention access index)) :
    P (annotationsOf c site retention access raws) (annotationsOf d site retention access raws) :=
  h.forM raws fun raw hraw => h.bind (h.outerAnnotationOf raw (htype raw hraw)) h.keepAnnotationOf

/-- The annotations of parameters are tables in a table: one for each parameter, which is told by
its number. -/
theorem parameterAnnotationsOf (lists : List (List RawAnnotation))
    (htype : ∀ raws ∈ lists, ∀ raw ∈ raws, ∀ index, raw.Names index →
      P (annotationType c retention access index) (annotationType d retention access index)) :
    P (parameterAnnotationsOf c retention access lists)
      (parameterAnnotationsOf d retention access lists) := by
  refine h.forM _ fun ⟨raws, parameter⟩ hraws => h.bind (h.tell rfl) fun _ => ?_
  exact h.annotationsOf raws (htype raws (List.fst_mem_of_mem_zipIdx hraws))

/-- Those on uses of types have a target and a path, of which nothing is told. What is left is an
annotation like any other. -/
theorem typeAnnotationsOf (raws : List RawTypeAnnotation)
    (htype : ∀ raw ∈ raws, ∀ index, raw.annotation.Names index →
      P (annotationType c retention access index) (annotationType d retention access index)) :
    P (typeAnnotationsOf c site retention access raws)
      (typeAnnotationsOf d site retention access raws) :=
  h.forM raws fun raw hraw =>
    h.bind (h.outerAnnotationOf raw.annotation (htype raw hraw)) fun _ => h.pure _

/-- A default value is told of and kept for the current method. Its types are those of annotations
that can be seen at run time. -/
theorem annotationDefaultOf (raw : RawValue)
    (htype : ∀ index, raw.Names index → P (annotationType c .runtime access index)
      (annotationType d .runtime access index)) :
    P (annotationDefaultOf c site access raw) (annotationDefaultOf d site access raw) :=
  h.bind (h.valueOf _ raw htype) h.keepDefaultOf

end Noting

end Acting

/-! ### Reading annotations -/

section Unfed

variable {c : Context}

/-- What is done with annotations that were read leaves the input alone: it changes the session, the
references and the record. -/
theorem unfed_noting : Noting c c fun {α} (m m' : Decode α) => m = m' ∧ Unfed .decoder m :=
  unfed_indifferent.noting

/-- So does what is done with the type of an annotation. -/
theorem unfed_annotationType (retention : Retention) (access : Access) (index : UInt16) :
    Unfed .decoder (annotationType c retention access index) :=
  (unfed_indifferent.naming.annotationType unfed_indifferent.expose retention access index).2

end Unfed

namespace Parses

theorem u1 : Parses .u1 pure (Decode.read Input.u1) :=
  number (fun _ h => UInt8.toNat_ofNat_of_lt' h) (fun _ => UInt8.ofNat_toNat)
    fun value => value.toNat_lt

variable {c : Context} {site : Site} {retention : Retention} {access : Access}

/-- The values of an annotation, by how a value is read. A name that comes again replaces what it
stood for, so the elements that were found before are carried along. -/
theorem elements {form : Form RawValue} {act : RawValue → Decode Value} {m : Decode Value}
    (hm : Parses form act m) (n : Nat) (found : List (String × Value)) :
    Parses (.times n (Form.u2.andThen fun _ => form)) (fun raws => elementsOf act raws found)
      (Decode.elements m n found) := by
  induction n generalizing found with
  | zero => exact @nil _ _ _ (fun raws => elementsOf act raws found) (.pure found)
  | succ n ih =>
    have hfirst := u2.read fun index => after (unfed_ask (·.utf8 index)) fun name =>
      hm.bind fun value => ih <| Annotation.putElement name value found
    have hboth : Parses ((Form.u2.andThen fun _ => form).andThen fun _ =>
        .times n (Form.u2.andThen fun _ => form))
        (fun raw => elementsOf act (raw.1 :: raw.2) found)
        (Decode.elements m (n + 1) found) := by
      refine hfirst.map (fun raw => ((raw.1, raw.2.1), raw.2.2)) ?_ ?_ (fun _ => rfl) ?_
      · rintro ⟨index, raw, raws⟩ ⟨hindex, hraw, hraws⟩
        exact ⟨⟨hindex, hraw⟩, hraws⟩
      · rintro ⟨index, raw, raws⟩ -
        exact List.append_assoc _ _ _
      · rintro ⟨⟨index, raw⟩, raws⟩ ⟨⟨hindex, hraw⟩, hraws⟩
        exact ⟨(index, raw, raws), ⟨hindex, hraw, hraws⟩, rfl⟩
    exact hboth.cons fun _ _ => rfl

/-- An annotation, by how a value is read: first its type, then the number of its elements and the
elements. -/
theorem annotation {form : Form RawValue} {act : RawValue → Decode Value} {m : Decode Value}
    (hm : Parses form act m) :
    Parses form.annotation (annotationOf c act site retention access)
      (Decode.annotation c m site retention access) := by
  have hend (type : TypeName) (values : List (String × Value)) :
      Unfed .decoder (pure ⟨type, retention, site, values⟩ : Decode Annotation) := .pure _
  have hrest (type : TypeName) := table fun n => (elements hm n []).before (hend type)
  have hannotation := u2.read fun index => after (unfed_ask (·.utf8 index)) fun text =>
    after ((unfed_noting (c := c)).note (.ofText text) retention).2 fun _ =>
      after (unfed_annotationType (c := c) retention access index) fun _ => hrest (.ofText text)
  refine hannotation.map (fun raw => ⟨raw.1, raw.2⟩) ?_ (fun _ _ => rfl) (fun _ => rfl) ?_
  · rintro ⟨index, raws⟩ ⟨-, hraws⟩
    exact hraws
  · rintro ⟨index, raws⟩ hraws
    exact ⟨(index, raws), ⟨trivial, hraws⟩, rfl⟩

/-- What follows a tag. -/
def tagged (levels : Nat) (tag : UInt8) : Form RawValue where
  encode := (RawValue.tail (RawValue.form levels)).encode
  Fits raw := raw.tag = tag ∧ (RawValue.tail (RawValue.form levels)).Fits raw

/-- A constant, after its tag. The tags of constants differ in what they ask of the pool only. -/
theorem constant {levels : Nat} {tag : UInt8} {f : UInt16 → Decode Value}
    (htag : RawValue.isConstantTag (Char.ofNat tag.toNat) = true)
    (hf : ∀ index, constantOf tag index = f index) :
    Parses (tagged levels tag) (valueOf c site retention access (levels + 1))
      (Decode.u2 >>= f) := by
  have hunfed (index : UInt16) : Unfed .decoder (f index) := by
    rw [← hf]
    exact ((unfed_noting (c := c)).constantOf tag index).2
  refine (u2.before hunfed).map (RawValue.constant tag) (fun _ _ => ⟨rfl, htag⟩) (fun _ _ => rfl)
    hf ?_
  rintro raw ⟨hraw, hfits⟩
  cases raw with
  | constant other index =>
    cases hraw
    exact ⟨index, trivial, rfl⟩
  | enumConstant | classLiteral | nested | array =>
    cases hraw
    exact nomatch htag

/-- An enumeration constant, after its tag: its type is referred to like that of an annotation, and
its name is just read. -/
theorem enumConstant {levels : Nat} {tag : UInt8} (hletter : Char.ofNat tag.toNat = 'e') :
    Parses (tagged levels tag) (valueOf c site retention access (levels + 1)) (do
      let type ← annotationType c retention access (← Decode.u2)
      return .enumConstant type (← utf8 (← Decode.u2))) := by
  have htag := RawValue.tag_eq_of_letter 101 hletter
  have hconstant := u2.read fun type =>
    after (unfed_annotationType (c := c) retention access type) fun found =>
      u2.before fun name => (unfed_ask (·.utf8 name)).bind fun name =>
        .pure (Value.enumConstant found name)
  refine hconstant.map (fun raw => .enumConstant raw.1 raw.2) (fun _ _ => ⟨htag, trivial⟩)
    (fun _ _ => rfl) (fun _ => rfl) ?_
  rintro raw ⟨rfl, hfits⟩
  have hraw := RawValue.eq_of_fits hfits
  rw [hletter] at hraw
  obtain ⟨type, name, rfl⟩ := hraw
  exact ⟨(type, name), ⟨trivial, trivial⟩, rfl⟩

/-- A class literal, after its tag. What it names is exposed like the type of an annotation. -/
theorem classLiteral {levels : Nat} {tag : UInt8} (hletter : Char.ofNat tag.toNat = 'c') :
    Parses (tagged levels tag) (valueOf c site retention access (levels + 1)) (do
      return .classLiteral (← annotationType c retention access (← Decode.u2))) := by
  have htag := RawValue.tag_eq_of_letter 99 hletter
  have hliteral := u2.before fun type =>
    (unfed_annotationType (c := c) retention access type).bind fun found =>
      .pure (Value.classLiteral found)
  refine hliteral.map .classLiteral (fun _ _ => ⟨htag, trivial⟩) (fun _ _ => rfl)
    (fun _ => rfl) ?_
  rintro raw ⟨rfl, hfits⟩
  have hraw := RawValue.eq_of_fits hfits
  rw [hletter] at hraw
  obtain ⟨type, rfl⟩ := hraw
  exact ⟨type, trivial, rfl⟩

/-- An annotation inside another, after its tag. It has one level less than the value that it is. -/
theorem nested {levels : Nat} {tag : UInt8} {m : Decode Value}
    (hletter : Char.ofNat tag.toNat = '@')
    (hm : Parses (RawValue.form levels) (valueOf c site retention access levels) m) :
    Parses (tagged levels tag) (valueOf c site retention access (levels + 1)) (do
      return (← Decode.annotation c m site retention access).toValue) := by
  have htag := RawValue.tag_eq_of_letter 64 hletter
  have hannotation : Parses (Form.annotation (RawValue.form levels))
      (annotationOf c (valueOf c site retention access levels) site retention access)
      (Decode.annotation c m site retention access) := annotation hm
  have hnested := hannotation.before fun found => .pure found.toValue
  refine hnested.map (fun raw => .nested raw.type raw.elements) (fun _ hfits => ⟨htag, hfits⟩)
    (fun _ _ => rfl) (fun _ => rfl) ?_
  rintro raw ⟨rfl, hfits⟩
  have hraw := RawValue.eq_of_fits hfits
  rw [hletter] at hraw
  obtain ⟨type, elements, rfl⟩ := hraw
  exact ⟨⟨type, elements⟩, hfits, rfl⟩

/-- A list of values, after its tag, each with one level less than the list. -/
theorem array {levels : Nat} {tag : UInt8} {m : Decode Value}
    (hletter : Char.ofNat tag.toNat = '[')
    (hm : Parses (RawValue.form levels) (valueOf c site retention access levels) m) :
    Parses (tagged levels tag) (valueOf c site retention access (levels + 1)) (do
      return .array (← Decode.listOf (← Decode.count) m)) := by
  have htag := RawValue.tag_eq_of_letter 91 hletter
  have hlist := table fun n => (hm.listOf n).before fun items => .pure (Value.array items)
  refine hlist.map .array (fun _ hfits => ⟨htag, hfits⟩) (fun _ _ => rfl) (fun _ => rfl) ?_
  rintro raw ⟨rfl, hfits⟩
  have hraw := RawValue.eq_of_fits hfits
  rw [hletter] at hraw
  obtain ⟨values, rfl⟩ := hraw
  exact ⟨values, hfits, rfl⟩

/-- **A value is read from its layout**, and enters no more levels than it may. By induction over
the levels that are left, with one case for each kind of tag; a tag that there is not, and a level
too many, are faults on both sides. -/
theorem value (levels : Nat) :
    Parses (RawValue.form levels) (valueOf c site retention access levels)
      (Decode.value c site retention access levels) := by
  induction levels with
  | zero =>
    refine ⟨nofun, fun s value t => ⟨fun h => ?_, fun ⟨_, _, hfits, _⟩ => hfits.elim⟩⟩
    cases h
  | succ levels ih =>
    have hparses : Parses (Form.u1.andThen (tagged levels))
        (fun raw => valueOf c site retention access (levels + 1) raw.2)
        (Decode.value c site retention access (levels + 1)) := by
      refine @Parses.read _ _ _ .u1 (tagged levels)
        (fun _ => valueOf c site retention access (levels + 1)) _ _ u1 fun tag => ?_
      split
      -- the nine kinds of constants
      iterate 9
        rename_i hletter
        exact constant (hletter ▸ by decide) fun index => by rw [constantOf, hletter]; rfl
      · exact enumConstant ‹_›
      · exact classLiteral ‹_›
      · exact nested ‹_› ih
      · exact array ‹_› ih
      -- no value has another tag
      · have hnone (raw : RawValue) (hraw : (tagged levels tag).Fits raw) : False := by
          obtain ⟨rfl, hfits⟩ := hraw
          have hletter := RawValue.letter_of_fits hfits
          simp only [List.mem_cons, List.not_mem_nil, or_false] at hletter
          grind
        refine ⟨fun raw hraw => (hnone raw hraw).elim, fun s value t => ⟨nofun, ?_⟩⟩
        exact fun ⟨raw, _, hraw, _⟩ => (hnone raw hraw).elim
    refine hparses.map Prod.snd ?_ ?_ (fun _ => rfl) fun raw hfits => ?_
    · rintro ⟨tag, raw⟩ ⟨-, -, hfits⟩
      exact hfits
    · rintro ⟨tag, raw⟩ ⟨-, htag, -⟩
      obtain rfl : raw.tag = tag := htag
      rfl
    · exact ⟨(raw.tag, raw), ⟨trivial, rfl, hfits⟩, rfl⟩

/-- An annotation that stands by itself is read and acted upon with all its levels, which are as
many as are allowed. -/
theorem annotationOutside :
    Parses RawAnnotation.outerForm (outerAnnotationOf c site retention access)
      (Decode.outerAnnotation c site retention access) :=
  annotation (value (nestingLimit + 1))

/-! ### Attributes with annotations -/

/-- A list of annotations is a table of such annotations, after their number. -/
theorem annotations :
    Parses RawAnnotation.outerForm.table (annotationsOf c site retention access)
      (Decode.annotations c site retention access) :=
  table fun n =>
    (annotationOutside.before fun found => (unfed_noting.keepAnnotationOf found).2).repeated n

/-- Things that are each acted upon with their number, counted from some number on. The induction
needs to start anywhere. -/
theorem numbered {ρ : Type} {form : Form ρ} {act : Nat → ρ → Decode Unit} {f : Nat → Decode Unit}
    (hf : ∀ k, Parses form (act k) (f k)) (start n : Nat) :
    Parses (.times n form) (fun raws => (raws.zipIdx start).forM fun raw => act raw.2 raw.1)
      ((List.range' start n).forM f) := by
  induction n generalizing start with
  | zero =>
    exact @nil _ _ _ (fun raws => (raws.zipIdx start).forM fun raw => act raw.2 raw.1) (.pure ())
  | succ n ih => exact ((hf start).bind fun _ => ih (start + 1)).cons fun _ _ => rfl

/-- A short table, after the number of its elements, which is a single byte. -/
theorem shortTable {ρ α : Type} {form : Form ρ} {act : List ρ → Decode α} {f : Nat → Decode α}
    (hf : ∀ n, Parses (.times n form) act (f n)) :
    Parses form.shortTable act (Decode.read Input.u1 >>= fun n => f n.toNat) := by
  refine (u1.read fun n => hf n.toNat).map Prod.snd ?_ ?_ (fun _ => rfl) ?_
  · rintro ⟨n, raws⟩ ⟨-, hlength, hraws⟩
    have hlength : raws.length = n.toNat := hlength
    exact ⟨hlength ▸ n.toNat_lt, hraws⟩
  · rintro ⟨n, raws⟩ ⟨-, hlength, -⟩
    have hlength : raws.length = n.toNat := hlength
    change Bytes.bigEndian 1 raws.length ++ _ = _
    rw [hlength]
    rfl
  · rintro raws ⟨hlength, hraws⟩
    exact ⟨(UInt8.ofNat raws.length, raws),
      ⟨trivial, (UInt8.toNat_ofNat_of_lt' hlength).symm, hraws⟩, rfl⟩

/-- A list of annotations for each parameter, after the number of parameters. -/
theorem parameterAnnotations :
    Parses RawAnnotation.outerForm.table.shortTable (parameterAnnotationsOf c retention access)
      (Decode.parameterAnnotations c retention access) := by
  have hone (parameter : Nat) := after (@unfed_indifferent c |>.tell
    (.parameter (UInt8.ofNat parameter))).2 fun _ => @annotations c .parameter retention access
  have hall (n : Nat) := numbered hone 0 n
  simp only [← List.range_eq_range'] at hall
  exact shortTable hall

/-- The default value of an annotation's element is a value with all its levels. -/
theorem annotationDefault :
    Parses RawValue.outerForm (annotationDefaultOf c site access)
      (annotationDefaultAttribute c site access) :=
  (value (nestingLimit + 1)).before fun found => (unfed_noting.keepDefaultOf found).2

/-- Bytes that are passed over are part of the layout, whatever they are. -/
theorem skip (n : Nat) :
    Parses (Form.bytes n) (fun _ => pure ()) (Decode.read (Input.skip n)) := by
  rw [Input.skip, read_bind]
  exact (take n).before fun _ => .pure ()

/-- Which bytes a target takes: a table for two of the kinds, a fixed number for the others, and
none is known for a kind that does not exist. -/
theorem typeTargetWidth_eq (target : UInt8) : typeTargetWidth target =
    if target.toNat = 0x40 ∨ target.toNat = 0x41 then
      Decode.count >>= fun n => pure (n * 6)
    else match targetWidth? target with
      | some width => pure width
      | none => throw (.typeTarget target) := by
  rw [typeTargetWidth, targetWidth?]
  -- every kind is in one case on the left and in one on the right
  repeat' split
  all_goals first
    | rfl
    | omega
    | simp_all only [reduceCtorEq, Option.some.injEq]

/-- What tells a use of a type from others of its kind is passed over, as long as its kind is known:
how long it is depends on the kind. -/
theorem target (target : UInt8) : Parses (targetForm target) (fun _ => pure ())
    (typeTargetWidth target >>= fun width => Decode.read (Input.skip width)) := by
  rw [typeTargetWidth_eq]
  by_cases hvariable : target.toNat = 0x40 ∨ target.toNat = 0x41
  · -- local variables have a table
    have hlist : Parses (targetForm target) (fun _ => pure ())
        (Decode.count >>= fun n => Decode.read (Input.skip (n * 6))) := by
      refine (count.read fun n => skip (n * 6)).map (fun raw => Form.count.encode raw.1 ++ raw.2)
        ?_ (fun _ _ => rfl) (fun _ => rfl) fun info hinfo => ?_
      · rintro ⟨n, entries⟩ ⟨hn, hentries⟩
        exact (if_pos hvariable).mpr ⟨n, entries, hn, hentries, rfl⟩
      · obtain ⟨n, entries, hn, hentries, rfl⟩ := (if_pos hvariable).mp hinfo
        exact ⟨(n, entries), ⟨hn, hentries⟩, rfl⟩
    rw [if_pos hvariable, bind_assoc]
    exact hlist
  · rw [if_neg hvariable]
    have hfits (info : Bytes) :
        (targetForm target).Fits info ↔ some info.length = targetWidth? target := by
      exact iff_of_eq (if_neg hvariable)
    cases hwidth : targetWidth? target with
    | some width =>
      refine (skip width).map id (fun info hinfo => ?_) (fun _ _ => rfl) (fun _ => rfl)
        fun info hinfo => ⟨info, ?_, rfl⟩
      · rw [id, hfits, hwidth]
        exact congrArg some hinfo
      · rw [hfits, hwidth] at hinfo
        exact Option.some.inj hinfo
    | none =>
      have hnone (info : Bytes) : ¬ (targetForm target).Fits info := by
        rw [hfits, hwidth]
        exact nofun
      exact ⟨fun info hinfo => (hnone info hinfo).elim, fun s value t =>
        ⟨nofun, fun ⟨info, _, hinfo, _⟩ => (hnone info hinfo).elim⟩⟩

/-- An annotation on a use of a type: its target and the path to the type, which are passed over,
and then the annotation itself. -/
theorem typeAnnotation :
    Parses RawTypeAnnotation.form
      (fun raw => outerAnnotationOf c site retention access raw.annotation >>= fun _ => pure ())
      (do
        let width ← typeTargetWidth (← Decode.read Input.u1)
        Decode.read (Input.skip width)
        let path ← Decode.read Input.u1
        Decode.read (Input.skip (path.toNat * 2))
        let _ ← Decode.outerAnnotation c site retention access) := by
  have hpath := u1.read fun steps => (skip (steps.toNat * 2)).bind fun _ =>
    (@annotationOutside c site retention access).before fun _ => .pure ()
  have hall := u1.read fun kind => (target kind).bind fun _ => hpath
  simp only [bind_assoc, pure_bind] at hall
  refine hall.map
    (fun raw => ⟨raw.1, raw.2.1, raw.2.2.2.1, raw.2.2.2.2⟩) ?_ ?_ (fun _ => rfl) ?_
  · rintro ⟨kind, info, steps, path, annotation⟩ ⟨-, hinfo, -, hpath, hannotation⟩
    exact ⟨hinfo, ⟨steps.toNat, steps.toNat_lt, hpath⟩, hannotation⟩
  · rintro ⟨kind, info, steps, path, annotation⟩ ⟨-, -, -, hpath, -⟩
    have hsteps : path.length / 2 = steps.toNat := by
      rw [show path.length = steps.toNat * 2 from hpath, Nat.mul_div_cancel _ Nat.two_pos]
    change Form.u1.encode kind ++ (info ++ (Bytes.bigEndian 1 (path.length / 2) ++ _)) = _
    rw [hsteps]
    rfl
  · rintro ⟨kind, info, path, annotation⟩ ⟨hinfo, ⟨steps, hsteps, hpath⟩, hannotation⟩
    refine ⟨(kind, info, UInt8.ofNat steps, path, annotation), ?_, rfl⟩
    refine ⟨trivial, hinfo, trivial, ?_, hannotation⟩
    exact hpath.trans (congrArg (· * 2) (UInt8.toNat_ofNat_of_lt' hsteps).symm)

/-- A list of annotations on uses of types is a table of them. -/
theorem typeAnnotations :
    Parses RawTypeAnnotation.form.table (typeAnnotationsOf c site retention access)
      (Decode.typeAnnotations c site retention access) :=
  table fun n => typeAnnotation.repeated n

end Parses

/-! ### Attributes that name types -/

section Leading

variable {c : Context} {P : ∀ {α : Type}, Decode α → Decode α → Prop} {I : Decoder → Prop}
  (h : Noting c c P) (hleads : ∀ {m : Decode Unit}, P m m → Leads I (fun _ => I) m)
  (hinput : ∀ s input, I s → I { s with input := input })
include h hleads hinput

/-- **What is done with an attribute of annotations** that can be seen at run time is done with the
types that it names. It is said for a step and itself, for it is used with invariants. -/
theorem Noting.leads_annotations {onCode : Decode Unit} {site : Site} {access : Access}
    {kind : AttributeKind} {body : Bytes} (hkind : kind.retention? = some .runtime)
    (htype : ∀ index, kind.Annotates index body →
      P (annotationType c .runtime access index) (annotationType c .runtime access index)) :
    Leads I (fun _ => I) (within body (attributeBody c onCode site access kind)) := by
  cases kind with
  | annotations retention =>
    obtain rfl : retention = .runtime := Option.some.inj hkind
    refine leads_within hinput .annotations fun raws rest hfits hbody => hleads ?_
    exact h.annotationsOf raws fun raw hraw index hindex =>
      htype index (hbody ▸ .annotations rest hfits hraw hindex)
  | parameterAnnotations retention =>
    obtain rfl : retention = .runtime := Option.some.inj hkind
    refine leads_within hinput .parameterAnnotations fun lists rest hfits hbody => hleads ?_
    exact h.parameterAnnotationsOf lists fun raws hraws raw hraw index hindex =>
      htype index (hbody ▸ .parameterAnnotations rest hfits hraws hraw hindex)
  | typeAnnotations retention =>
    obtain rfl : retention = .runtime := Option.some.inj hkind
    refine leads_within hinput .typeAnnotations fun raws rest hfits hbody => hleads ?_
    exact h.typeAnnotationsOf raws fun raw hraw index hindex =>
      htype index (hbody ▸ .typeAnnotations rest hfits hraw hindex)
  | annotationDefault =>
    refine leads_within hinput .annotationDefault fun raw rest hfits hbody => hleads ?_
    exact h.annotationDefaultOf raw fun index hindex =>
      htype index (hbody ▸ .annotationDefault rest hfits hindex)
  | _ => exact nomatch hkind

end Leading

end Decode

end ClassFile
