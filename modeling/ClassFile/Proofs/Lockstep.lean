import ClassFile.Proofs.Steps

/-!
# Decodings in lockstep

There is one theorem here for each reader of annotations, attributes and method bodies. It says that
the reader is related to itself, under one context and under the other, by any relation between
steps that is closed under what the reader is made of (`ClassFile.Decode.Lockstep`, and the weaker
`ClassFile.Decode.Annotating`, `ClassFile.Decode.Detailing` and `ClassFile.Decode.Signing` where
they are enough).

The lists of fields and methods, and the class itself, are not here: an invariant
typically says something about them that the single steps break and restore.
-/

namespace ClassFile

namespace Decode

/-! ### Numbers and lists -/

namespace Annotating

variable {c d : Context} {P : ∀ {α : Type}, Decode α → Decode α → Prop}

theorem u1 (h : Annotating c d P) : P (read Input.u1) (read Input.u1) := by
  rw [Input.u1, read_bind]
  exact h.bind (h.take 1) fun _ => h.pure _

theorem u2 (h : Annotating c d P) : P Decode.u2 Decode.u2 := by
  rw [Decode.u2, Input.u2, read_bind]
  exact h.bind (h.take 2) fun _ => h.pure _

theorem u4 (h : Annotating c d P) : P (read Input.u4) (read Input.u4) := by
  rw [Input.u4, read_bind]
  exact h.bind (h.take 4) fun _ => h.pure _

theorem skip (h : Annotating c d P) (n : Nat) : P (read (Input.skip n)) (read (Input.skip n)) := by
  rw [Input.skip, read_bind]
  exact h.bind (h.take n) fun _ => h.pure _

theorem count (h : Annotating c d P) : P Decode.count Decode.count :=
  h.bind h.u2 fun _ => h.pure _

theorem repeated (h : Annotating c d P) (n : Nat) {m m' : Decode Unit} (hm : P m m') :
    P (repeated n m) (repeated n m') := by
  induction n with
  | zero => exact h.pure ()
  | succ n ih => exact h.bind hm fun _ => ih

/-- A list of some length is read in step if its elements are. -/
theorem listOf (h : Annotating c d P) {α : Type} (n : Nat) {m m' : Decode α} (hm : P m m') :
    P (listOf n m) (listOf n m') := by
  induction n with
  | zero => exact h.pure []
  | succ n ih => exact h.bind hm fun _ => h.bind ih fun _ => h.pure _

/-! ### Annotations -/

/-- Elements are read in step if their values are. What was found so far is the same for both, so
the same element is put in. -/
theorem elements (h : Annotating c d P) {m m' : Decode Value} (hm : P m m') (n : Nat)
    (found : List (String × Value)) : P (elements m n found) (elements m' n found) := by
  induction n generalizing found with
  | zero => exact h.pure found
  | succ n ih =>
    exact h.bind h.u2 fun index => h.bind (h.utf8 index) fun name => h.bind hm fun value => ih _

/-- How wide a target is depends on its kind alone, and a kind that is unknown stops both. -/
theorem typeTargetWidth (h : Annotating c d P) (target : UInt8) :
    P (typeTargetWidth target) (typeTargetWidth target) := by
  rw [Decode.typeTargetWidth]
  repeat' split
  all_goals first
    | exact h.pure _
    | exact h.throw rfl
    | exact h.bind h.count fun _ => h.pure _

section Annotated

variable (h : Annotating c d P) {retention : Retention} {access : Access}
  (htype : ∀ index, P (annotationType c retention access index)
    (annotationType d retention access index))
include h htype

/-- An annotation, given what is done with its type. -/
theorem annotationBody {m m' : Decode Value} (hm : P m m') (site : Site) :
    P (Decode.annotation c m site retention access)
      (Decode.annotation d m' site retention access) := by
  refine h.bind h.u2 fun index => h.bind (h.utf8 index) fun text => ?_
  refine h.bind (h.note _ retention) fun _ => h.bind (htype index) fun _ => ?_
  exact h.bind h.count fun n => h.bind (h.elements hm n []) fun _ => h.pure _

/-- Values are read in step, by induction on how many levels they may have. At every level the tag
decides, which both have read. -/
theorem value (site : Site) (levels : Nat) :
    P (value c site retention access levels) (value d site retention access levels) := by
  induction levels with
  | zero => exact h.throw rfl
  | succ levels ih =>
    refine h.bind h.u1 fun tag => ?_
    have hint (f : Int32 → Value) :
        P (Decode.u2 >>= fun index => Decode.intConstant index >>= fun n => Pure.pure (f n))
          (Decode.u2 >>= fun index => Decode.intConstant index >>= fun n => Pure.pure (f n)) :=
      h.bind h.u2 fun index => h.bind (h.intConstant index) fun _ => h.pure _
    split
    -- the five kinds of integers, and then the constants that have an entry of their own
    · exact hint _
    · exact hint _
    · exact hint _
    · exact hint _
    · exact hint _
    · refine h.bind h.u2 fun index => h.entry index (fun _ _ => rfl) (fun _ _ => rfl)
        (fun _ _ => rfl) fun found _ => ?_
      cases found with
      | long value => exact h.pure _
      | _ => exact h.throw rfl
    · refine h.bind h.u2 fun index => h.entry index (fun _ _ => rfl) (fun _ _ => rfl)
        (fun _ _ => rfl) fun found _ => ?_
      cases found with
      | float bits => exact h.pure _
      | _ => exact h.throw rfl
    · refine h.bind h.u2 fun index => h.entry index (fun _ _ => rfl) (fun _ _ => rfl)
        (fun _ _ => rfl) fun found _ => ?_
      cases found with
      | double bits => exact h.pure _
      | _ => exact h.throw rfl
    · exact h.bind h.u2 fun index => h.bind (h.utf8 index) fun _ => h.pure _
    · refine h.bind h.u2 fun index => h.bind (htype index) fun _ => ?_
      exact h.bind h.u2 fun index => h.bind (h.utf8 index) fun _ => h.pure _
    · refine h.bind h.u2 fun index => ?_
      exact h.bind (htype index) fun _ => h.pure _
    -- annotations and lists, whose values are one level further in
    · exact h.bind (h.annotationBody htype ih site) fun _ => h.pure _
    · exact h.bind h.count fun n => h.bind (h.listOf n ih) fun _ => h.pure _
    · exact h.throw rfl

/-- A value that stands by itself may have as many levels as are allowed. -/
theorem outerValue (site : Site) :
    P (outerValue c site retention access) (outerValue d site retention access) :=
  h.value htype site _

theorem annotationOutside (site : Site) :
    P (Decode.outerAnnotation c site retention access)
      (Decode.outerAnnotation d site retention access) :=
  h.annotationBody htype (h.outerValue htype site) site

/-- The annotations of a class or a member, given what becomes of those of a class. -/
theorem annotations {site : Site} (hclass : site = .type → ∀ found : Annotation,
      P (updateRecord fun record => { record with annotations := record.annotations.push found })
        (updateRecord fun record => { record with annotations := record.annotations.push found })) :
    P (annotations c site retention access) (annotations d site retention access) := by
  refine h.bind h.count fun n => h.repeated n ?_
  refine h.bind (h.annotationOutside htype site) fun found => h.bind (h.tell rfl) fun _ => ?_
  split
  · exact hclass ‹_› found
  · exact h.updateMember (by constructor <;> intro <;> rfl)

/-- Annotations of parameters are tables of annotations, of which both are told by which parameter
they are for. -/
theorem parameterAnnotations :
    P (parameterAnnotations c retention access) (parameterAnnotations d retention access) := by
  refine h.bind h.u1 fun parameters => h.forM _ fun parameter _ => ?_
  exact h.bind (h.tell rfl) fun _ => h.annotations htype fun hsite => nomatch hsite

/-- Annotations on uses of types are read in step, with the target and the path in front of each. -/
theorem typeAnnotations (site : Site) :
    P (typeAnnotations c site retention access) (typeAnnotations d site retention access) := by
  refine h.bind h.count fun n => h.repeated n ?_
  refine h.bind h.u1 fun target => h.bind (h.typeTargetWidth target) fun width => ?_
  refine h.bind (h.skip width) fun _ => h.bind h.u1 fun path => h.bind (h.skip _) fun _ => ?_
  exact h.bind (h.annotationOutside htype site) fun _ => h.pure _

end Annotated

/-! ### The other attributes -/

/-- A member that is deprecated is marked as such; if there is no member but the class is meant then
it is the class. -/
theorem deprecatedAttribute (h : Annotating c d P) {site : Site} (hclass : site = .type →
      P (updateRecord fun record => { record with deprecated := true })
        (updateRecord fun record => { record with deprecated := true })) :
    P (deprecatedAttribute c site) (deprecatedAttribute d site) := by
  refine h.look fun s t hst => ?_
  have hlast : s.last = t.last := congrArg Decoder.Glimpse.last hst
  rw [hlast]
  cases t.last with
  | some last =>
    exact h.bind (h.updateMember (by constructor <;> intro <;> rfl)) fun _ => h.tell rfl
  | none =>
    by_cases hsite : site = .type
    · simp only [hsite, if_true]
      exact h.bind (hclass hsite) fun _ => h.tell rfl
    · simp only [hsite, if_false]
      exact h.tell rfl

theorem constantAt (h : Annotating c d P) (index : UInt16) :
    P (constantAt index) (constantAt index) := by
  refine h.entry index (fun _ _ => rfl) (fun _ _ => rfl) (fun _ _ => rfl) fun found _ => ?_
  cases found with
  | string text => exact h.bind (h.utf8 text) fun _ => h.pure _
  | integer | float | long | double | utf8 => exact h.pure _
  | _ => exact h.throw rfl

/-- A constant value is looked up and put down for the current member. -/
theorem constantAttribute (h : Annotating c d P) :
    P (constantAttribute c) (constantAttribute d) := by
  refine h.bind h.u2 fun index => h.bind (h.constantAt index) fun value => ?_
  exact h.bind (h.tell rfl) fun _ => h.updateMember (by constructor <;> intro <;> rfl)

/-- A default value is put down for the method that is read, if it is a method. -/
theorem annotationDefaultAttribute (h : Annotating c d P) {access : Access}
    (htype : ∀ index, P (annotationType c .runtime access index)
      (annotationType d .runtime access index)) (site : Site) :
    P (annotationDefaultAttribute c site access) (annotationDefaultAttribute d site access) :=
  h.bind (h.outerValue htype site) h.keepDefaultOf

theorem exceptionsAttribute (h : Annotating c d P) {access : Access}
    (hclass : ∀ index, P (referClass c index access) (referClass d index access)) :
    P (exceptionsAttribute c access) (exceptionsAttribute d access) := by
  refine h.bind h.count fun n => h.repeated n (h.bind h.u2 fun index => ?_)
  have hrefer := h.bind (hclass index) fun _ => h.pure ()
  simp only [Decode.referClass, bind_assoc, pure_bind, bind_pure_unit] at hrefer
  exact hrefer

/-- The body of an attribute, given what is done with what it names, and what is put on record of
the class. -/
theorem attributeBody (h : Annotating c d P) {onCode onCode' : Decode Unit} {site : Site}
    {access : Access} {kind : AttributeKind}
    (htype : ∀ retention, kind.retention? = some retention → ∀ index,
      P (annotationType c retention access index) (annotationType d retention access index))
    (hsignature : kind = .signature → P (Decode.signatureAttribute c site access)
      (Decode.signatureAttribute d site access))
    (hexceptions : kind = .exceptions → P (Decode.exceptionsAttribute c access)
      (Decode.exceptionsAttribute d access))
    (hcode : kind = .code → P onCode onCode')
    (hclass : site = .type → ∀ {f : Record → Record}, Record.Aside f →
      P (updateRecord f) (updateRecord f))
    (hinner : kind = .innerClasses → P (innerClassesAttribute c) (innerClassesAttribute d))
    (henclosing : kind = .enclosingMethod →
      P (enclosingMethodAttribute c) (enclosingMethodAttribute d))
    (hsource : kind = .sourceFile → P sourceFileAttribute sourceFileAttribute) :
    P (attributeBody c onCode site access kind) (attributeBody d onCode' site access kind) := by
  cases kind with
  | deprecated => exact h.deprecatedAttribute fun hsite => hclass hsite Record.aside_deprecated
  | annotations retention =>
    exact h.annotations (htype retention rfl) fun hsite found =>
      hclass hsite (Record.aside_annotation found)
  | parameterAnnotations retention => exact h.parameterAnnotations (htype retention rfl)
  | typeAnnotations retention => exact h.typeAnnotations (htype retention rfl) site
  | innerClasses => exact hinner rfl
  | enclosingMethod => exact henclosing rfl
  | sourceFile => exact hsource rfl
  | code => exact hcode rfl
  | signature => exact hsignature rfl
  | constantValue => exact h.constantAttribute
  | annotationDefault => exact h.annotationDefaultAttribute (htype .runtime rfl) site
  | exceptions => exact hexceptions rfl
  | other => exact h.pure ()

end Annotating

namespace Detailing

variable {c d : Context} {P : ∀ {α : Type}, Decode α → Decode α → Prop}

/-- The name of the source file is put on record. -/
theorem sourceFileAttribute (h : Detailing c d P) : P sourceFileAttribute sourceFileAttribute := by
  refine h.bind h.u2 fun index => h.bind (h.utf8 index) fun name => ?_
  exact h.updateRecord (Record.aside_sourceFile name)

/-- A table of nested classes refers to three classes for each entry, two of which may be missing,
and keeps each entry. -/
theorem innerClassesAttribute (h : Detailing c d P) :
    P (innerClassesAttribute c) (innerClassesAttribute d) := by
  refine h.bind h.count fun n => h.repeated n ?_
  refine h.bind h.u2 fun inner => h.bind h.u2 fun outer => h.bind h.u2 fun name => ?_
  refine h.bind h.u2 fun access => h.bind (h.classAt? inner) fun inner => ?_
  refine h.bind (h.classAt? outer) fun outer => ?_
  have hrest (simpleName : Option String) :
      P (Decode.keepInnerClass c ⟨inner, outer, simpleName, access⟩)
        (Decode.keepInnerClass d ⟨inner, outer, simpleName, access⟩) :=
    h.keepInnerClass _
  dsimp only
  split
  · exact h.bind (h.pure none) hrest
  · exact h.bind (h.bind (h.utf8 name) fun _ => h.pure _) hrest

/-- The enclosing method refers to a class and may name a method of it. -/
theorem enclosingMethodAttribute (h : Detailing c d P) :
    P (enclosingMethodAttribute c) (enclosingMethodAttribute d) := by
  refine h.bind h.u2 fun classIndex => h.bind h.u2 fun methodIndex => ?_
  refine h.bind (h.constant classIndex) fun _ => h.bind (h.classAt classIndex) fun type => ?_
  dsimp only
  split
  · exact h.bind (h.pure _) h.keepEnclosingMethod
  · exact h.bind (h.nameAndType methodIndex) fun _ => h.bind (h.pure _) h.keepEnclosingMethod

/-- The body of an attribute, given what is done with what it names: with the types of
annotations, in a signature, by exceptions, and in a method body. -/
theorem attributeBody (h : Detailing c d P) {onCode onCode' : Decode Unit} {site : Site}
    {access : Access} {kind : AttributeKind}
    (htype : ∀ retention, kind.retention? = some retention → ∀ index,
      P (annotationType c retention access index) (annotationType d retention access index))
    (hsignature : kind = .signature → P (Decode.signatureAttribute c site access)
      (Decode.signatureAttribute d site access))
    (hexceptions : kind = .exceptions → P (Decode.exceptionsAttribute c access)
      (Decode.exceptionsAttribute d access))
    (hcode : kind = .code → P onCode onCode') :
    P (attributeBody c onCode site access kind) (attributeBody d onCode' site access kind) :=
  h.toAnnotating.attributeBody htype hsignature hexceptions hcode
    (fun _ _ hf => h.updateRecord hf)
    (fun _ => h.innerClassesAttribute) (fun _ => h.enclosingMethodAttribute)
    (fun _ => h.sourceFileAttribute)

end Detailing

namespace Signing

variable {c d : Context} {P : ∀ {α : Type}, Decode α → Decode α → Prop}

/-- The generic signature of a class or a member. -/
theorem signatureAttribute (h : Signing c d P)
    (hsign : ∀ text, P (Decode.updateMember fun member => { member with signature := some text })
      (Decode.updateMember fun member => { member with signature := some text }))
    (site : Site) (access : Access) :
    P (signatureAttribute c site access) (signatureAttribute d site access) :=
  h.bind h.u2 fun index => h.signatureAt (h.attempt index access) hsign site

/-- What the readers of single attributes leave open: the types of annotations, signatures, and
what is done with method bodies. -/
theorem attributeBody (h : Signing c d P) {onCode onCode' : Decode Unit} {site : Site}
    {access : Access} {kind : AttributeKind}
    (htype : ∀ retention, kind.retention? = some retention → ∀ index,
      P (annotationType c retention access index) (annotationType d retention access index))
    (hsignature : kind = .signature → P (Decode.signatureAttribute c site access)
      (Decode.signatureAttribute d site access))
    (hcode : kind = .code → P onCode onCode') :
    P (attributeBody c onCode site access kind) (attributeBody d onCode' site access kind) :=
  h.toDetailing.attributeBody htype hsignature
    (fun _ => h.exceptionsAttribute fun index => h.referClass index access) hcode

/-! ### Tables of attributes -/

/-- One attribute is read in step: both have the same name for it, and so read its body as one of
the same kind. -/
theorem oneAttribute (h : Signing c d P) {access : Access}
    (htype : ∀ retention index, P (annotationType c retention access index)
      (annotationType d retention access index))
    (hsignature : ∀ site access, P (Decode.signatureAttribute c site access)
      (Decode.signatureAttribute d site access))
    {onCode onCode' : Decode Unit} (hcode : P onCode onCode') (site : Site) :
    P (oneAttribute c onCode site access) (oneAttribute d onCode' site access) := by
  refine h.bind h.u2 fun index => h.bind (h.utf8 index) fun name => h.bind h.u4 fun length => ?_
  dsimp only
  have hrest : P
      (read (Input.take length.toNat) >>= fun body =>
        Decode.within body (Decode.attributeBody c onCode site access (.ofName name)))
      (read (Input.take length.toNat) >>= fun body =>
        Decode.within body (Decode.attributeBody d onCode' site access (.ofName name))) :=
    h.bind (h.take _) fun body =>
      h.within (h.attributeBody (fun retention _ => htype retention)
        (fun _ => hsignature site access) fun _ => hcode)
  split
  · exact h.bind (h.throw rfl) fun _ => hrest
  · exact hrest

/-- A table of attributes is read in step, attribute by attribute. -/
theorem attributes (h : Signing c d P) {access : Access}
    (htype : ∀ retention index, P (annotationType c retention access index)
      (annotationType d retention access index))
    (hsignature : ∀ site access, P (Decode.signatureAttribute c site access)
      (Decode.signatureAttribute d site access))
    {onCode onCode' : Decode Unit} (hcode : P onCode onCode') (site : Site) :
    P (attributes c onCode site access) (attributes d onCode' site access) :=
  h.bind h.count fun n => h.repeated n (h.oneAttribute htype hsignature hcode site)

/-! ### Method bodies -/

/-- A method body, given what becomes of a walk through its code. Nothing in a body can be seen
from outside. -/
theorem code (h : Signing c d P)
    (htype : ∀ retention index, P (annotationType c retention 0 index)
      (annotationType d retention 0 index))
    (hsignature : ∀ site access, P (Decode.signatureAttribute c site access)
      (Decode.signatureAttribute d site access))
    (hwalk : ∀ code : Bytes, P (get >>= fun s => (handlers c).walk s.targets code)
      (get >>= fun s => (handlers d).walk s.targets code)) :
    P (code c) (code d) := by
  refine h.bind h.u2 fun _ => h.bind h.u2 fun _ => h.bind h.u4 fun length => ?_
  refine h.bind (h.take _) fun code => ?_
  have hrest : P
      (Decode.count >>= fun n => Decode.repeated n (do
          read (Input.skip 6)
          referClassConstant c (← Decode.u2)) >>= fun _ =>
        Decode.attributes c (Pure.pure ()) .method 0)
      (Decode.count >>= fun n => Decode.repeated n (do
          read (Input.skip 6)
          referClassConstant d (← Decode.u2)) >>= fun _ =>
        Decode.attributes d (Pure.pure ()) .method 0) := by
    refine h.bind h.count fun n => h.bind (h.repeated n ?_) fun _ => ?_
    · exact h.bind (h.skip 6) fun _ => h.bind h.u2 fun index => h.constant index
    · exact h.attributes htype hsignature (h.pure ()) .method
  have hboth := h.bind (hwalk code) fun _ => hrest
  simp only [bind_assoc] at hboth
  exact hboth

end Signing

/-! ### Annotations included -/

namespace Lockstep

variable {c d : Context} {P : ∀ {α : Type}, Decode α → Decode α → Prop}

/-- The body of an attribute, of whatever kind it is. Signatures are a condition of their own, since
what they store is special. -/
theorem attributeBody (h : Lockstep c d P) {onCode onCode' : Decode Unit} {site : Site}
    {access : Access} {kind : AttributeKind}
    (hsignature : kind = .signature → P (Decode.signatureAttribute c site access)
      (Decode.signatureAttribute d site access))
    (hcode : kind = .code → P onCode onCode') :
    P (attributeBody c onCode site access kind) (attributeBody d onCode' site access kind) :=
  h.toSigning.attributeBody (fun retention _ => h.annotationType retention access) hsignature hcode

/-- The attributes of a class or of a member, when signatures and method bodies are known to be in
step. -/
theorem attributes (h : Lockstep c d P)
    (hsignature : ∀ site access, P (Decode.signatureAttribute c site access)
      (Decode.signatureAttribute d site access))
    {onCode onCode' : Decode Unit} (hcode : P onCode onCode') (site : Site) (access : Access) :
    P (attributes c onCode site access) (attributes d onCode' site access) :=
  h.toSigning.attributes (fun retention => h.annotationType retention access) hsignature hcode site

/-- A method body is read in step if walks are: its code is walked through, its handlers refer to
classes, and it has attributes of its own. -/
theorem code (h : Lockstep c d P)
    (hsignature : ∀ site access, P (Decode.signatureAttribute c site access)
      (Decode.signatureAttribute d site access))
    (hwalk : ∀ code : Bytes, P (get >>= fun s => (handlers c).walk s.targets code)
      (get >>= fun s => (handlers d).walk s.targets code)) :
    P (code c) (code d) :=
  h.toSigning.code (fun retention => h.annotationType retention 0) hsignature hwalk

end Lockstep

end Decode

end ClassFile
