import ClassFile.Layout.Findings
import ClassFile.Layout.Values
import ClassFile.Proofs.Annotations
import ClassFile.Proofs.Collecting
import ClassFile.Proofs.Unambiguous

/-!
# What annotations put on record

The annotations in what was read are put on record one by one, wherever they stand. Each step
*brings* some findings, whatever was found before (`ClassFile.Decode.Brings`), and what a sequence
of steps brings is what its parts bring. A property of decoders that depends on the findings, and
that a type and a retention that are noted down change in the way they should
(`ClassFile.Decode.Noticing`), is changed by a value through the annotations that it includes and by
nothing else (`ClassFile.Decode.Noticing.valueOf`).

What is in an attribute of annotations can be told from its bytes
(`ClassFile.Form.Distinct.value`), so it does not matter how they are read.
-/

namespace ClassFile

/-! ### Annotations can be told from their bytes -/

namespace Form.Distinct

theorem u1 : Form.u1.Distinct := by
  refine of_width 1 (fun n _ => Bytes.length_bigEndian 1 n.toNat) fun m n _ _ h => ?_
  exact UInt8.toNat_inj.1 (number_inj 1 m.toNat_lt n.toNat_lt h)

/-- A short table is told from its bytes if its elements are: its length comes first, in one
byte. -/
theorem shortTable {ρ : Type} {form : Form ρ} (h : form.Distinct) : form.shortTable.Distinct := by
  refine (u1.andThen fun n => h.times n.toNat).map (fun raws => (.ofNat raws.length, raws)) ?_ ?_
    fun _ _ hsame => (Prod.mk.inj hsame).2
  · rintro raws ⟨hcount, hraws⟩
    exact ⟨trivial, (UInt8.toNat_ofNat_of_lt' hcount).symm, hraws⟩
  · rintro raws ⟨hcount, -⟩
    change Bytes.bigEndian 1 (UInt8.ofNat raws.length).toNat ++ _ = _
    rw [UInt8.toNat_ofNat_of_lt' hcount]
    rfl

/-- An annotation is told from its bytes if its values are, for its elements are a table of indices
and values. -/
theorem annotation {form : Form RawValue} (h : form.Distinct) : form.annotation.Distinct := by
  refine (u2.andThen fun _ => (u2.andThen fun _ => h).table).map
    (fun raw => (raw.type, raw.elements)) (fun _ hfits => ⟨trivial, hfits⟩) (fun _ _ => rfl) ?_
  rintro ⟨type, elements⟩ ⟨type', elements'⟩ hsame
  cases hsame
  rfl

/-- No constant has the tag of another value, so which of the shapes a value has is told by its
tag. -/
theorem constantTag_ne {tag : UInt8} (h : RawValue.isConstantTag (Char.ofNat tag.toNat) = true) :
    tag ≠ 101 ∧ tag ≠ 99 ∧ tag ≠ 64 ∧ tag ≠ 91 := by
  refine ⟨?_, ?_, ?_, ?_⟩ <;> rintro rfl <;> exact nomatch h

/-- What follows a tag can be told from its bytes, given that it can be for the values inside. There
is one case for each shape. -/
theorem tail {form : Form RawValue} (h : form.Distinct) {raw raw' : RawValue} {rest rest' : Bytes}
    (hfits : (RawValue.tail form).Fits raw) (hfits' : (RawValue.tail form).Fits raw')
    (htag : raw.tag = raw'.tag)
    (hbytes : (RawValue.tail form).encode raw ++ rest = (RawValue.tail form).encode raw' ++ rest') :
    raw = raw' ∧ rest = rest' := by
  -- the tags of the four other values are no tags of constants, so two values with one tag are
  -- alike
  cases raw with
  | constant tag index =>
    obtain ⟨henum, hclass, hnested, harray⟩ := constantTag_ne hfits
    cases raw' with
    | constant tag' index' =>
      obtain rfl : tag = tag' := htag
      obtain ⟨rfl, hrest⟩ := u2 trivial trivial hbytes
      exact ⟨rfl, hrest⟩
    | enumConstant => exact absurd htag henum
    | classLiteral => exact absurd htag hclass
    | nested => exact absurd htag hnested
    | array => exact absurd htag harray
  | enumConstant type name =>
    cases raw' with
    | enumConstant type' name' =>
      have hpair := u2.andThen fun _ => u2
      obtain ⟨hsame, hrest⟩ := @hpair (type, name) (type', name') rest rest' ⟨trivial, trivial⟩
        ⟨trivial, trivial⟩ hbytes
      cases hsame
      exact ⟨rfl, hrest⟩
    | constant => exact absurd htag.symm (constantTag_ne hfits').1
    | classLiteral | nested | array => exact nomatch htag
  | classLiteral type =>
    cases raw' with
    | classLiteral type' =>
      obtain ⟨rfl, hrest⟩ := u2 trivial trivial hbytes
      exact ⟨rfl, hrest⟩
    | constant => exact absurd htag.symm (constantTag_ne hfits').2.1
    | enumConstant | nested | array => exact nomatch htag
  | nested type elements =>
    cases raw' with
    | nested type' elements' =>
      obtain ⟨hsame, hrest⟩ := h.annotation hfits hfits' hbytes
      cases hsame
      exact ⟨rfl, hrest⟩
    | constant => exact absurd htag.symm (constantTag_ne hfits').2.2.1
    | enumConstant | classLiteral | array => exact nomatch htag
  | array values =>
    cases raw' with
    | array values' =>
      obtain ⟨rfl, hrest⟩ := h.table hfits hfits' hbytes
      exact ⟨rfl, hrest⟩
    | constant => exact absurd htag.symm (constantTag_ne hfits').2.2.2
    | enumConstant | classLiteral | nested => exact nomatch htag

/-- A value is told from its bytes, by induction on how many levels it may have. The tag in front
says how it goes on. -/
theorem value (levels : Nat) : (RawValue.form levels).Distinct := by
  induction levels with
  | zero => exact fun _ _ _ _ hfits => hfits.elim
  | succ levels ih =>
    intro raw raw' rest rest' hfits hfits' hbytes
    simp only [RawValue.form, List.append_assoc] at hbytes
    obtain ⟨htag, hbehind⟩ := u1 trivial trivial hbytes
    exact ih.tail hfits hfits' htag hbehind

/-- Of local variables there is a table, and what tells other uses apart has a fixed width. -/
theorem target (target : UInt8) : (targetForm target).Distinct := by
  intro info info' rest rest' hfits hfits' hbytes
  have hbytes : info ++ rest = info' ++ rest' := hbytes
  by_cases hvariable : target.toNat = 0x40 ∨ target.toNat = 0x41
  · obtain ⟨n, entries, hn, hentries, rfl⟩ := (if_pos hvariable).mp hfits
    obtain ⟨n', entries', hn', hentries', rfl⟩ := (if_pos hvariable).mp hfits'
    have htable := count.andThen fun n => bytes (n * 6)
    obtain ⟨hsame, hrest⟩ := @htable (n, entries) (n', entries') rest rest' ⟨hn, hentries⟩
      ⟨hn', hentries'⟩ hbytes
    cases hsame
    exact ⟨rfl, hrest⟩
  · have hwidth : some info.length = targetWidth? target := (if_neg hvariable).mp hfits
    have hwidth' : some info'.length = targetWidth? target := (if_neg hvariable).mp hfits'
    exact List.append_inj hbytes (Option.some.inj (hwidth.trans hwidth'.symm))

/-- The target of an annotation on a use of a type is told by its kind, and the path has its length
in front. -/
theorem typeAnnotation : RawTypeAnnotation.form.Distinct := by
  have hparts := u1.andThen fun kind => (target kind).andThen fun _ => u1.andThen fun steps =>
    (bytes (steps.toNat * 2)).andThen fun _ => annotation (value (nestingLimit + 1))
  refine hparts.map
    (fun raw => (raw.target, raw.info, .ofNat (raw.path.length / 2), raw.path, raw.annotation))
    ?_ ?_ ?_
  · rintro ⟨kind, info, path, annotation⟩ ⟨hinfo, ⟨steps, hsteps, hpath⟩, hannotation⟩
    refine ⟨trivial, hinfo, trivial, ?_, hannotation⟩
    change path.length = (UInt8.ofNat (path.length / 2)).toNat * 2
    rw [hpath, Nat.mul_div_cancel _ Nat.two_pos, UInt8.toNat_ofNat_of_lt' hsteps]
  · rintro ⟨kind, info, path, annotation⟩ ⟨hinfo, ⟨steps, hsteps, hpath⟩, hannotation⟩
    have hlength : (UInt8.ofNat (path.length / 2)).toNat = path.length / 2 := by
      rw [hpath, Nat.mul_div_cancel _ Nat.two_pos, UInt8.toNat_ofNat_of_lt' hsteps]
    change _ ++ (info ++ (Bytes.bigEndian 1 (UInt8.ofNat (path.length / 2)).toNat ++ _)) = _
    rw [hlength]
    rfl
  · rintro ⟨kind, info, path, annotation⟩ ⟨kind', info', path', annotation'⟩ hsame
    simp only [Prod.mk.injEq] at hsame
    obtain ⟨rfl, rfl, -, rfl, rfl⟩ := hsame
    rfl

end Form.Distinct

/-- When an annotation is noted down, then there is one of its retention. -/
theorem Record.retains_note {type : TypeName} {retention other : Retention} {record : Record} :
    (record.note type retention).retains other = true ↔
      record.retains other = true ∨ other = retention := by
  cases retention <;> cases other <;> simp [note, retains]

/-! ### What steps bring -/

namespace Decode

variable {ι α β ρ : Type} {Stage : (ι → Prop) → Decoder → Prop} {Q Q' : ι → Prop}

/-- If the step succeeds, then what was found before has been found, and these, and nothing else. -/
def Brings (Stage : (ι → Prop) → Decoder → Prop) (Q : ι → Prop) (m : Decode α) : Prop :=
  ∀ P, Leads (Stage P) (fun _ => Stage fun i => P i ∨ Q i) m

/-- If the step succeeds, then nothing else has been found. -/
def BringsNothing (Stage : (ι → Prop) → Decoder → Prop) (m : Decode α) : Prop :=
  ∀ P, Leads (Stage P) (fun _ => Stage P) m

namespace BringsNothing

theorem pure (a : α) : BringsNothing Stage (Pure.pure a) := fun _ => .pure fun _ hs => hs

/-- Steps that bring nothing, one after the other, bring nothing, whatever the first one comes
to. -/
theorem bind {m : Decode α} {f : α → Decode β} (hm : BringsNothing Stage m)
    (hf : ∀ a, BringsNothing Stage (f a)) : BringsNothing Stage (m >>= f) :=
  fun P => (hm P).bind fun a => hf a P

theorem of_keeps {m : Decode α} (h : ∀ P, Keeps (Stage P) (fun _ => True) m) :
    BringsNothing Stage m :=
  fun P => (h P).leads

/-- A look at the state brings nothing, if what is done then does not. -/
theorem look {k : Decoder → Decode α} (hk : ∀ s, BringsNothing Stage (k s)) :
    BringsNothing Stage (get >>= k) :=
  fun P => .look fun s _ => hk s P

theorem throw (fault : Fault) : BringsNothing Stage (MonadExcept.throw fault : Decode α) :=
  fun _ _ _ _ _ hrun => nomatch hrun

/-- A loop brings nothing if its rounds do not, however many they are. -/
theorem repeated {m : Decode Unit} (hm : BringsNothing Stage m) (n : Nat) :
    BringsNothing Stage (repeated n m) :=
  fun P => (hm P).repeated n

/-- A loop over what was read brings nothing if none of its rounds does. -/
theorem forM {f : ρ → Decode Unit} (hf : ∀ raw, BringsNothing Stage (f raw)) (raws : List ρ) :
    BringsNothing Stage (raws.forM f) :=
  fun P => .forM fun raw _ => hf raw P

/-- A loop that puts values together brings nothing either. -/
theorem mapM {f : ρ → Decode α} (hf : ∀ raw, BringsNothing Stage (f raw)) (raws : List ρ) :
    BringsNothing Stage (raws.mapM f) := by
  induction raws with
  | nil => exact pure []
  | cons raw raws ih =>
    rw [List.mapM_cons]
    exact (hf raw).bind fun _ => ih.bind fun _ => pure _

/-- A question to the pool notes nothing down, be it answered or not. -/
theorem ask (question : Pool → Except Fault α) : BringsNothing Stage (Decode.ask question) :=
  of_keeps fun _ => .ask fun _ _ _ => trivial

theorem utf8 (index : UInt16) : BringsNothing Stage (Decode.utf8 index) := ask _

theorem classAt (index : UInt16) : BringsNothing Stage (Decode.classAt index) :=
  (ask _).bind fun _ => .pure _

theorem constantOf (tag : UInt8) (index : UInt16) :
    BringsNothing Stage (Decode.constantOf tag index) :=
  of_keeps fun _ => (Lasting.asking _).constantOf tag index

end BringsNothing

namespace Brings

/-- What is brought may be said in another way, which has to be the same for each thing. -/
theorem congr {m : Decode α} (h : Brings Stage Q m) (hsame : ∀ i, Q i ↔ Q' i) :
    Brings Stage Q' m := by
  rwa [← funext fun i => propext (hsame i)]

/-- A step that brings nothing brings what is never the case. So it can stand between steps that
bring something. -/
theorem nothing {m : Decode α} (h : BringsNothing Stage m) : Brings Stage (fun _ => False) m := by
  intro P
  simp only [or_false]
  exact h P

/-- What two steps bring is brought one after the other. There is nothing else in the end, and
nothing gets lost. -/
theorem bind {m : Decode α} {f : α → Decode β} (hm : Brings Stage Q m)
    (hf : ∀ a, Brings Stage Q' (f a)) : Brings Stage (fun i => Q i ∨ Q' i) (m >>= f) := by
  intro P
  simp only [← or_assoc]
  exact (hm P).bind fun a => hf a _

/-- What is brought by the second of two steps, if the first one brings nothing. -/
theorem after {m : Decode α} {f : α → Decode β} (hm : BringsNothing Stage m)
    (hf : ∀ a, Brings Stage Q (f a)) : Brings Stage Q (m >>= f) :=
  fun P => (hm P).bind fun a => hf a P

/-- What is brought by the first of two steps, if the second one brings nothing. -/
theorem before {m : Decode α} {f : α → Decode β} (hm : Brings Stage Q m)
    (hf : ∀ a, BringsNothing Stage (f a)) : Brings Stage Q (m >>= f) :=
  fun P => (hm P).bind fun a => hf a _

/-- What the first of two parts brings, and what the others bring, is what the whole list brings. -/
theorem of_cons {m : Decode α} {raw : ρ} {raws : List ρ} {Q : ρ → ι → Prop}
    (h : Brings Stage (fun i => Q raw i ∨ ∃ other ∈ raws, Q other i) m) :
    Brings Stage (fun i => ∃ other ∈ raw :: raws, Q other i) m :=
  h.congr fun i => by simp only [List.mem_cons, exists_eq_or_imp]

theorem of_nil {m : Decode α} {Q : ρ → ι → Prop} (h : BringsNothing Stage m) :
    Brings Stage (fun i => ∃ other ∈ ([] : List ρ), Q other i) m :=
  (nothing h).congr fun i => by simp only [List.not_mem_nil, false_and, exists_false]

/-- A loop brings what one of its rounds brings. By induction over what it goes through, from the
front. -/
theorem forM {f : ρ → Decode Unit} {Q : ρ → ι → Prop} {raws : List ρ}
    (hf : ∀ raw ∈ raws, Brings Stage (Q raw) (f raw)) :
    Brings Stage (fun i => ∃ raw ∈ raws, Q raw i) (raws.forM f) := by
  induction raws with
  | nil => exact .of_nil (.pure ())
  | cons raw raws ih =>
    obtain ⟨hraw, hraws⟩ := List.forall_mem_cons.1 hf
    exact .of_cons (hraw.bind fun _ => ih hraws)

/-- The same if the rounds give values, which are put together in a list. -/
theorem mapM {f : ρ → Decode α} {Q : ρ → ι → Prop} {raws : List ρ}
    (hf : ∀ raw ∈ raws, Brings Stage (Q raw) (f raw)) :
    Brings Stage (fun i => ∃ raw ∈ raws, Q raw i) (raws.mapM f) := by
  induction raws with
  | nil => exact .of_nil (.pure [])
  | cons raw raws ih =>
    obtain ⟨hraw, hraws⟩ := List.forall_mem_cons.1 hf
    rw [List.mapM_cons]
    exact .of_cons (hraw.bind fun _ => (ih hraws).before fun _ => .pure _)

/-- Elements bring what their values bring. Their names are only looked up, and one that is repeated
replaces the value in front of it, but what that value has brought is not taken back. -/
theorem elementsOf {act : RawValue → Decode Value} {Q : UInt16 × RawValue → ι → Prop}
    {raws : List (UInt16 × RawValue)} (hact : ∀ raw ∈ raws, Brings Stage (Q raw) (act raw.2))
    (found : List (String × Value)) :
    Brings Stage (fun i => ∃ raw ∈ raws, Q raw i) (Decode.elementsOf act raws found) := by
  induction raws generalizing found with
  | nil => exact .of_nil (.pure found)
  | cons raw raws ih =>
    obtain ⟨hraw, hraws⟩ := List.forall_mem_cons.1 hact
    exact .after (.utf8 raw.1) fun name => .of_cons (hraw.bind fun value => ih hraws _)

end Brings

/-! ### What annotations bring -/

/-- A property of decoders that depends on what was found, where an annotation of the retention says
something by the index of its type. It does not depend on what is referred to. -/
structure Noticing (c : Context) (Stage : (ι → Prop) → Decoder → Prop) (retention : Retention)
    (notes : UInt16 → ι → Prop) : Prop where
  note {P : ι → Prop} {index : UInt16} {text : String} {s : Decoder} :
    Stage P s → s.pool.utf8 index = .ok text →
    Stage (fun i => P i ∨ notes index i)
      { s with record := s.record.map (Record.note (.ofText text) retention) }
  annotationType (access : Access) (index : UInt16) :
    BringsNothing Stage (annotationType c retention access index)

namespace Noticing

variable {c : Context} {notes : UInt16 → ι → Prop} {site : Site} {retention : Retention}
  {access : Access}

/-- What annotations say whose types are at the indices. -/
def Noted (notes : UInt16 → ι → Prop) (indices : UInt16 → Prop) (i : ι) : Prop :=
  ∃ index, indices index ∧ notes index i

variable (h : Noticing c Stage retention notes)
include h

/-- A type is noted down, and then the other steps bring something. The note is made for the text at
an index, if there is one. -/
theorem noteAt {f : String → Decode α} (index : UInt16) (hf : ∀ text, Brings Stage Q (f text)) :
    Brings Stage (fun i => notes index i ∨ Q i) (do
      let text ← utf8 index
      noteAnnotation (.ofText text) retention
      f text) := by
  intro P s a t hs hrun
  obtain ⟨text, u, htext, hnote⟩ := EStateM.ok_of_bind hrun
  obtain ⟨htext, rfl⟩ := ok_of_utf8 htext
  obtain ⟨_, v, hnote, hlast⟩ := EStateM.ok_of_bind hnote
  cases ok_of_updateRecord hnote
  simp only [← or_assoc]
  exact hf text _ _ _ _ (h.note hs htext) hlast

/-- An annotation brings itself, and what its values bring. Of an annotation within another one the
retention is the same. -/
theorem annotationOf {act : RawValue → Decode Value} (raw : RawAnnotation)
    (hact : ∀ element ∈ raw.elements,
      Brings Stage (Noted notes fun index => element.2.Includes index) (act element.2)) :
    Brings Stage (Noted notes fun index => raw.Includes index)
      (annotationOf c act site retention access raw) := by
  have hall := h.noteAt raw.type fun text =>
    Brings.after (h.annotationType access raw.type) fun _ =>
      (Brings.elementsOf hact []).before fun elements =>
        .pure (⟨.ofText text, retention, site, elements⟩ : Annotation)
  -- the annotation itself, and those in the values of its elements
  refine hall.congr fun i => ?_
  simp only [Noted, RawAnnotation.includes_iff, or_and_right, exists_or, exists_eq_left]
  refine or_congr_right ⟨?_, ?_⟩
  · rintro ⟨element, hmem, index, hindex, hi⟩
    exact ⟨index, ⟨element, hmem, hindex⟩, hi⟩
  · rintro ⟨index, ⟨element, hmem, hindex⟩, hi⟩
    exact ⟨element, hmem, index, hindex, hi⟩

/-- **A value brings the annotations that it includes**, and nothing else. -/
theorem valueOf (levels : Nat) (raw : RawValue) :
    Brings Stage (Noted notes fun index => raw.Includes index)
      (valueOf c site retention access levels raw) := by
  have hnothing {raw : RawValue} {m : Decode Value} (hraw : ∀ index, ¬raw.Includes index)
      (hm : BringsNothing Stage m) :
      Brings Stage (Noted notes fun index => raw.Includes index) m :=
    (Brings.nothing hm).congr fun i => ⟨False.elim, fun ⟨index, hindex, _⟩ => hraw index hindex⟩
  induction levels generalizing raw with
  | zero => exact fun _ _ _ _ _ hrun => nomatch hrun
  | succ levels ih =>
    cases raw with
    | constant tag index => exact hnothing nofun (.constantOf tag index)
    | enumConstant type name =>
      refine hnothing nofun ((h.annotationType access type).bind fun _ => ?_)
      exact (BringsNothing.utf8 name).bind fun _ => .pure _
    | classLiteral type =>
      exact hnothing nofun ((h.annotationType access type).bind fun _ => .pure _)
    | nested type elements =>
      exact (h.annotationOf ⟨type, elements⟩ fun element _ => ih element.2).before fun _ => .pure _
    | array values =>
      refine Brings.before ((Brings.mapM fun raw _ => ih raw).congr fun i => ?_) fun _ => .pure _
      simp only [Noted, RawValue.includes_array_iff]
      constructor
      · rintro ⟨value, hmem, index, hindex, hi⟩
        exact ⟨index, ⟨value, hmem, hindex⟩, hi⟩
      · rintro ⟨index, ⟨value, hmem, hindex⟩, hi⟩
        exact ⟨value, hmem, index, hindex, hi⟩

/-- An annotation that stands by itself is one that may have as many levels as are allowed. -/
theorem outerAnnotationOf (raw : RawAnnotation) :
    Brings Stage (Noted notes fun index => raw.Includes index)
      (outerAnnotationOf c site retention access raw) :=
  h.annotationOf raw fun element _ => h.valueOf (nestingLimit + 1) element.2

/-- Annotations on uses of types are not kept anywhere else, so the types that they name are all
that they bring. -/
theorem typeAnnotationsOf (raws : List RawTypeAnnotation) :
    Brings Stage (fun i => ∃ raw ∈ raws, Noted notes (fun index => raw.annotation.Includes index) i)
      (typeAnnotationsOf c site retention access raws) :=
  Brings.forM fun raw _ => (h.outerAnnotationOf raw.annotation).before fun _ => .pure ()

end Noticing

end Decode

end ClassFile
