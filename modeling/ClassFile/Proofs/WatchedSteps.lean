import ClassFile.Guarded.Walks
import ClassFile.Proofs.Parametric

/-!
# Steps of a decoding that takes down its walks

A decoding that takes down its walks is put together like any other, so that it is compared with
another one step by step: `ClassFile.Decode.Watched.Watching` lists what a relation between their
steps has to respect, and then the decodings of a class file are related
(`ClassFile.Decode.Watched.Watching.classBody`). What happens around the walks only has to be
related in the way in which two steps of a decoding are that do not call any method.

In the first place, the decoding that takes down its walks is the decoding itself
(`ClassFile.Decode.Watched.logs_classFile`).
-/

namespace ClassFile.Decode.Watched

/-- A relation `P` between steps that take down their walks and steps that need not. It relates the
walks and what is put together from related steps; and `Q` relates whatever has no walk in it. -/
structure Watching (c d : Context) (Q : ∀ {α : Type}, Decode α → Decode α → Prop)
    (P : ∀ {α : Type}, Watched α → Decode α → Prop) : Prop where
  oblivious : Oblivious c d Q
  plain {α : Type} {m m' : Decode α} : Q m m' → P (plain m) m'
  bind {α β : Type} {m : Watched α} {m' : Decode α} {f : α → Watched β} {f' : α → Decode β} :
    P m m' → (∀ a, P (f a) (f' a)) → P (m >>= f) (m' >>= f')
  within (bytes : Bytes) {m : Watched Unit} {m' : Decode Unit} :
    P m m' → P (within bytes m) (Decode.within bytes m')
  walk (code : Bytes) : P (walk c code) (get >>= fun s => (handlers d).walk s.targets code)

namespace Watching

variable {c d : Context} {Q : ∀ {α : Type}, Decode α → Decode α → Prop}
  {P : ∀ {α : Type}, Watched α → Decode α → Prop}

theorem pure (h : Watching c d Q P) {α : Type} (a : α) : P (Pure.pure a) (Pure.pure a) :=
  h.plain (h.oblivious.pure a)

theorem repeated (h : Watching c d Q P) (n : Nat) {m : Watched Unit} {m' : Decode Unit}
    (hm : P m m') : P (repeated n m) (Decode.repeated n m') := by
  induction n with
  | zero => exact h.pure ()
  | succ n ih => exact h.bind hm fun _ => ih

/-- A method body: only its code is walked through, and its attributes are those of a method without
bodies. -/
theorem code (h : Watching c d Q P) : P (code c) (Decode.code d) := by
  have hplain := h.oblivious.fieldwise
  refine h.bind (h.plain hplain.u2) fun _ => h.bind (h.plain hplain.u2) fun _ => ?_
  refine h.bind (h.plain hplain.u4) fun length => h.bind (h.plain (hplain.take _)) fun code => ?_
  have hrest : P
      (Watched.plain (Decode.count >>= fun n => Decode.repeated n (do
          read (Input.skip 6)
          referClassConstant c (← Decode.u2)) >>= fun _ =>
        Decode.attributes c (Pure.pure ()) .method 0))
      (Decode.count >>= fun n => Decode.repeated n (do
          read (Input.skip 6)
          referClassConstant d (← Decode.u2)) >>= fun _ =>
        Decode.attributes d (Pure.pure ()) .method 0) := by
    refine h.plain (hplain.bind hplain.count fun n =>
      hplain.bind (hplain.repeated n ?_) fun _ => ?_)
    · exact hplain.bind (hplain.skip 6) fun _ =>
        hplain.bind hplain.u2 fun index => hplain.constant index
    · exact hplain.attributes (hplain.pure ()) .method 0
  have hboth := h.bind (h.walk code) fun _ => hrest
  simp only [bind_assoc] at hboth
  exact hboth

/-- The body of an attribute, given what becomes of method bodies. There is no other kind of
attribute in which something is walked through. -/
theorem attributeBody (h : Watching c d Q P) {onCode : Watched Unit} {onCode' : Decode Unit}
    (hcode : P onCode onCode') (site : Site) (access : Access) (kind : AttributeKind) :
    P (attributeBody c onCode site access kind)
      (Decode.attributeBody d onCode' site access kind) := by
  have hplain := h.oblivious.fieldwise
  by_cases hkind : kind = .code
  · subst hkind
    exact hcode
  · have hbody : Q (Decode.attributeBody c (Pure.pure ()) site access kind)
        (Decode.attributeBody d onCode' site access kind) :=
      hplain.toSigning.attributeBody (fun retention _ => hplain.annotationType retention access)
        (fun _ => hplain.signatureAttribute site access) fun hcode => absurd hcode hkind
    cases kind with
    | code => exact absurd rfl hkind
    | _ => exact h.plain hbody

/-- A table of attributes, given what becomes of the method bodies among them. Everything but these
is watched as it is. -/
theorem attributes (h : Watching c d Q P) {onCode : Watched Unit} {onCode' : Decode Unit}
    (hcode : P onCode onCode') (site : Site) (access : Access) :
    P (attributes c onCode site access) (Decode.attributes d onCode' site access) := by
  have hplain := h.oblivious.fieldwise
  refine h.bind (h.plain hplain.count) fun n => h.repeated n ?_
  refine h.bind (h.plain hplain.u2) fun index => h.bind (h.plain (hplain.utf8 index)) fun name => ?_
  refine h.bind (h.plain hplain.u4) fun length => ?_
  have hbody := h.bind (h.plain (hplain.take length.toNat)) fun body =>
    h.within body (h.attributeBody hcode site access (.ofName name))
  dsimp only
  split
  · exact h.bind (h.plain (h.oblivious.throw _)) fun _ => hbody
  · exact hbody

/-- Both decoders have come to the same methods, if there is one answer to the question whether they
walk through bodies. -/
theorem isWalking (h : Watching c d Q P) : Q Watched.isWalking Watched.isWalking := by
  refine h.oblivious.look fun s t hst => ?_
  rw [show s.walking = t.walking from congrArg Decoder.Core.walking hst]
  exact h.oblivious.pure t.walking

/-- A method is opened, and then its attributes are watched, with its body if bodies are walked
through. -/
theorem method (h : Watching c d Q P) : P (method c) (Decode.method d) := by
  have hplain := h.oblivious.fieldwise
  refine h.bind (h.plain hplain.memberHeader) fun header => ?_
  refine h.bind (h.plain (hplain.openMethod header)) fun _ => ?_
  have hrest (walking : Bool) : P
      (Watched.attributes c (if walking then Watched.code c else Pure.pure ())
        (if header.isConstructor then .constructor else .method) header.access)
      (Decode.attributes d (if walking then Decode.code d else Pure.pure ())
        (if header.isConstructor then .constructor else .method) header.access) := by
    refine h.attributes ?_ _ header.access
    split
    · exact h.code
    · exact h.pure ()
  exact h.bind (h.plain h.isWalking) hrest

/-- **Everything after the name of a class** is watched: the supertypes, fields and attributes as
they are, and the methods with their bodies. -/
theorem classBody (h : Watching c d Q P) (orphan : Bool) :
    P (classBody c orphan) (Decode.classBody d orphan) := by
  have hplain := h.oblivious.fieldwise
  refine h.bind (h.plain hplain.record) fun record => ?_
  refine h.bind (h.plain (hplain.superclass record.access)) fun _ => ?_
  refine h.bind (h.plain (hplain.interfaces record.access)) fun _ => ?_
  refine h.bind (h.plain hplain.count) fun n => ?_
  refine h.bind (h.plain (hplain.repeated n hplain.field)) fun _ => ?_
  refine h.bind (h.plain (hplain.prepareWalks orphan)) fun _ => ?_
  refine h.bind (h.plain hplain.count) fun n => h.bind (h.repeated n h.method) fun _ => ?_
  refine h.plain (hplain.bind (hplain.announce rfl) fun _ => ?_)
  refine hplain.bind (hplain.attend fun scene => ⟨none, scene.walking, scene.targets⟩) fun _ => ?_
  exact hplain.bind (hplain.attributes (hplain.pure ()) .type record.access) fun _ =>
    h.oblivious.finish

end Watching

/-! ### Walks are not noticed -/

/-- A step without walks is noticed as it is. -/
theorem logs_plain {α : Type} (m : Decode α) : Logs (plain m) m := by
  intro s walks
  rw [plain]
  cases m s <;> rfl

/-- The part of the input that an attribute has to itself is put back in the same way. -/
theorem logs_within (bytes : Bytes) {m : Watched Unit} {m' : Decode Unit} (hm : Logs m m') :
    Logs (within bytes m) (Decode.within bytes m') := by
  intro s walks
  have hrun := hm { s with input := .ofBytes bytes } walks
  rw [within, Decode.within]
  cases hwatched : m ({ s with input := .ofBytes bytes }, walks) with
  | ok value t =>
    rw [hwatched] at hrun
    rw [hrun]
  | error fault t =>
    rw [hwatched] at hrun
    rw [hrun]

/-- Steps that are the same are related by equality, which respects everything. -/
theorem oblivious_eq (c : Context) : Oblivious c c fun m m' => m = m' where
  pure _ := rfl
  bind hm hf := by rw [hm, funext hf]
  throw _ := rfl
  look hk := congrArg (get >>= ·) (funext fun s => hk s s rfl)
  change _ := rfl
  packageOf _ := rfl
  tell _ := rfl
  take _ := rfl
  within hm := congrArg _ hm
  readPool := rfl
  attempt _ _ := rfl

/-- All steps of a decoding are what they were before walks were taken down. -/
theorem watching_logs (c : Context) :
    Watching c c (fun m m' => m = m') fun m m' => Logs m m' where
  oblivious := oblivious_eq c
  plain hm := hm ▸ logs_plain _
  bind := Logs.bind
  within := logs_within
  walk code := by
    have hnote : Logs (modify fun p => (p.1, p.2 ++ [⟨p.1.pool, code⟩]) : Watched Unit)
        (Pure.pure () : Decode Unit) := fun _ _ => rfl
    exact hnote.bind fun _ => logs_plain _

/-- **The decoding does not notice** that its walks are taken down: leaving them out, it is the
decoding without a listener. -/
theorem logs_classFile (namer : Namer) :
    Logs (classFile namer) (Decode.classFile ⟨namer, none⟩) :=
  (logs_plain _).bind fun (_, orphan) => ((watching_logs _).classBody orphan).bind fun _ => .pure _

end ClassFile.Decode.Watched
