import ClassFile.Proofs.Completeness
import ClassFile.Proofs.Following
import ClassFile.Proofs.Generics
import ClassFile.Proofs.Ownership

/-!
# Signatures of methods that throw

The signature of a method may end with the exceptions that it throws, each behind a `^`
(`ClassFile.Signature.MethodTree`). To the scan that mark is a character like any other that begins
no type, so a signature with exceptions is rejected there, after the classes of its parameters and
its result were found, and the method goes without a signature
(`ClassFile.Session.decode_throwing`).

What a member's signature comes to is followed through the attributes. At every point there is
something that is known of the signature so far (`ClassFile.Decoder.Bears`), and only two kinds of
attributes can change it: a signature, and a method body with a signature in it. So what is known
stays true while nothing is offered that is accepted and does not fit it
(`ClassFile.Decode.Bears.attributesOf`). That is used in three ways: in front of the signature in
question for whatever is wanted of what is offered there, behind it to keep it, and for all
attributes together to see that what is rejected is nobody's signature.
-/

namespace ClassFile

/-- The attribute offers a signature with this text: it is one, or it is a method body with such an
attribute in it. -/
def RawAttribute.Offers (pool : Pool) (text : String) (raw : RawAttribute) : Prop :=
  raw.Signs pool text ∨ pool.utf8 raw.name = .ok "Code" ∧
    ∃ code rest, RawCode.form.Fits code ∧ raw.body = RawCode.form.encode code ++ rest ∧
      ∃ inner ∈ code.attributes, inner.Signs pool text

namespace RawMember

/-- This is the last text that the attributes of the member offer as its signature. -/
def SignsLast (pool : Pool) (text : String) (raw : RawMember) : Prop :=
  ∃ front found back, raw.attributes = front ++ found :: back ∧ found.Signs pool text ∧
    ∀ other ∈ back, ∀ text, ¬other.Offers pool text

/-- This is all that they offer. -/
def SignsOnly (pool : Pool) (text : String) (raw : RawMember) : Prop :=
  ∃ front found back, raw.attributes = front ++ found :: back ∧ found.Signs pool text ∧
    ∀ other ∈ front ++ back, ∀ text, ¬other.Offers pool text

end RawMember

namespace Decoder

/-- A member is being read, and its signature so far is like that. -/
structure Bears (pool : Pool) (kind : LastMember) (P : Option String → Prop) (s : Decoder) :
    Prop where
  pool : s.pool.Like pool
  last : s.last = some kind
  signature : ∃ member, (s.members kind).back? = some member ∧ P member.signature

variable {pool : Pool} {kind : LastMember} {P Q : Option String → Prop} {s t : Decoder}

namespace Bears

/-- It does not matter what is collected, or where the decoder stands. -/
theorem lasting (pool : Pool) (kind : LastMember) (P : Option String → Prop) :
    Decode.Lasting (Bears pool kind P) where
  bare {s t} h hbare :=
    { pool := like_of_bare hbare h.pool
      last := by
        rw [show t.last = s.last from (congrArg Decoder.last hbare :)]
        exact h.last
      signature := by
        rw [members, show t.record = s.record from (congrArg Decoder.record hbare :)]
        exact h.signature }
  withInput _ h := ⟨h.pool, h.last, h.signature⟩
  marked index h := ⟨(Pool.like_markReferred _ index).trans h.pool, h.last, h.signature⟩

theorem mono (h : s.Bears pool kind P) (hPQ : ∀ signature, P signature → Q signature) :
    s.Bears pool kind Q where
  pool := h.pool
  last := h.last
  signature := h.signature.imp fun _ => And.imp_right (hPQ _)

/-- A change of the member that is being read. -/
theorem updateMember (h : s.Bears pool kind P) {f : Member → Member}
    (hf : ∀ member, P member.signature → Q (f member).signature) :
    ∃ t, Decode.updateMember f s = .ok () t ∧ t.Bears pool kind Q := by
  obtain ⟨member, hmember, hsignature⟩ := h.signature
  refine ⟨{ s with record := s.record.map (Record.updateLast kind f) }, ?_, h.pool, h.last,
    f member, ?_, hf member hsignature⟩
  · change EStateM.Result.ok () _ = _
    simp only [h.last]
  · rw [members_updateLast, if_pos rfl, Array.back?_modify_last, hmember]
    rfl

/-- A change of the record that keeps the members. -/
theorem withRecord (h : s.Bears pool kind P) {f : Record → Record}
    (hf : ∀ record, (f record).members kind = record.members kind) :
    Bears pool kind P { s with record := s.record.map f } where
  pool := h.pool
  last := h.last
  signature := by
    have hmembers : members kind { s with record := s.record.map f } = s.members kind := by
      simp only [members, Option.map_map]
      exact congrArg (Option.getD · #[]) (Option.map_congr fun record _ => hf record)
    rw [hmembers]
    exact h.signature

end Bears

end Decoder

namespace Decode

open Decoder

variable {namer : Namer} {pool : Pool} {kind : LastMember} {P : Option String → Prop}

/-- A descriptor is accepted if and only if nothing is wrong with its text. -/
theorem attempt_ends {index : UInt16} {text : String} {s : Decoder}
    (htext : s.pool.utf8 index = .ok text) (access : Access) :
    ∃ t : Decoder, t.bare = s.bare ∧ succeeds (referDescriptor ⟨namer, none⟩ index access) s =
      .ok (Signature.scan text).fault.isNone t := by
  obtain ⟨t, hbare, hrun⟩ := @referText_bare namer text access s
  refine ⟨t, hbare, ?_⟩
  have hrefer : referDescriptor ⟨namer, none⟩ index access s =
      referText ⟨namer, none⟩ text access s := EStateM.bind_of_ok (utf8_of_ok htext)
  rw [succeeds, hrefer, hrun]
  cases (Signature.scan text).fault <;> rfl

namespace Bears

theorem elementary : Elementary ⟨namer, none⟩ ⟨namer, none⟩ fun m _ =>
    Keeps (Bears pool kind P) (fun _ => True) m where
  toNaming := (Decoder.Bears.lasting pool kind P).naming
  look hk := .look fun s => hk s s rfl
  constant := (Decoder.Bears.lasting pool kind P).constant
  call := (Decoder.Bears.lasting pool kind P).walking.call
  take := (Decoder.Bears.lasting pool kind P).take
  within := (Decoder.Bears.lasting pool kind P).within
  tell _ := .modify fun _ hs => hs
  expose type access := (Decoder.Bears.lasting pool kind P).collects (.expose type access)
  attempt := (Decoder.Bears.lasting pool kind P).attempt
  updateRecord hf := .updateRecord trivial fun s hs => hs.withRecord fun record => by
    cases kind with
    | field => exact hf.fields record
    | method => exact hf.methods record
  updateMember hf s hs := by
    obtain ⟨t, hrun, ht⟩ := hs.updateMember (Q := P) fun member h => by rwa [hf.signature]
    rw [hrun]
    exact ht

theorem lockstep : Lockstep ⟨namer, none⟩ ⟨namer, none⟩ fun m _ =>
    Keeps (Bears pool kind P) (fun _ => True) m := elementary.lockstep

/-- A signature is put on record if it is accepted, and else the member keeps the one that it
has. -/
theorem signatureAt_ok {index : UInt16} {text : String} (htext : pool.utf8 index = .ok text)
    {site : Site} (hsite : site ≠ .type) {access : Access} {s t : Decoder}
    (hs : s.Bears pool kind P) (hrun : signatureAt ⟨namer, none⟩ site access index s = .ok () t) :
    t.Bears pool kind fun signature =>
      if (Signature.scan text).fault = none then signature = some text else P signature := by
  have htext' : s.pool.utf8 index = .ok text :=
    Pool.Question.ok_of_like (.utf8 index) hs.pool.symm htext
  obtain ⟨u, hbare, hattempt⟩ := @attempt_ends namer index text s htext' access
  have hu : u.Bears pool kind P := (Decoder.Bears.lasting pool kind P).bare hs hbare
  obtain ⟨accepted, _, hfirst, hrest⟩ := EStateM.ok_of_bind hrun
  cases hfirst.symm.trans hattempt
  cases hfault : (Signature.scan text).fault with
  | some fault =>
    rw [hfault] at hrest
    cases hrest
    exact hu.mono fun _ h => by rwa [if_neg nofun]
  | none =>
    rw [hfault] at hrest
    obtain ⟨found, _, hfound, hrest⟩ := EStateM.ok_of_bind hrest
    obtain ⟨hfound, rfl⟩ := ok_of_utf8 hfound
    cases (Pool.Question.ok_of_like (.utf8 index) hu.pool.symm htext).symm.trans hfound
    obtain ⟨_, _, htell, hsign⟩ := EStateM.ok_of_bind hrest
    cases htell
    rw [if_neg hsite] at hsign
    obtain ⟨v, hupdate, hv⟩ := hu.updateMember (Q := (· = some text))
      (f := fun member => { member with signature := some text }) fun _ _ => rfl
    cases hupdate.symm.trans hsign
    exact hv.mono fun _ h => by rwa [if_pos rfl]

end Bears

/-- An attribute that is a signature is put into the member if the text can be read to its end, and
is dropped otherwise. -/
theorem Bears.signed {raw : RawAttribute} {text : String} (hsigns : raw.Signs pool text)
    {onCode : Decode Unit} {site : Site} (hsite : site ≠ .type) {access : Access} {s t : Decoder}
    (hs : s.Bears pool kind P)
    (hrun : attributeOf ⟨namer, none⟩ onCode site access raw s = .ok () t) :
    t.Bears pool kind fun signature =>
      if (Signature.scan text).fault = none then signature = some text else P signature := by
  obtain ⟨hname, index, rest, hbody, htext⟩ := hsigns
  obtain ⟨name, hfound, hwithin⟩ := attributeOf_eq_ok_iff.1 hrun
  cases (Pool.Question.ok_of_like (.utf8 raw.name) hs.pool.symm hname).symm.trans hfound
  obtain ⟨u, hinner, rfl⟩ := ok_of_within hwithin
  obtain ⟨found, v, hread, hsign⟩ := EStateM.ok_of_bind hinner
  obtain ⟨rest', input, hfront, rfl⟩ := ok_of_u2 hread
  cases (Form.Distinct.u2 trivial trivial (hfront.symm.trans hbody)).1
  have hstart := (Decoder.Bears.lasting pool kind P).withInput input hs
  exact (Decoder.Bears.lasting pool kind _).withInput _ (signatureAt_ok htext hsite hstart hsign)

/-- An attribute that offers no other signatures than the member may have. -/
theorem Bears.attributeOf {raw : RawAttribute} {onCode : Decode Unit} {site : Site}
    (hsite : site ≠ .type) {access : Access}
    (hsigns : ∀ text, raw.Signs pool text → (Signature.scan text).fault = none → P (some text))
    (hcode : pool.utf8 raw.name = .ok "Code" →
      Leads (Bears pool kind P) (fun _ => Bears pool kind P) (within raw.body onCode)) :
    Leads (Bears pool kind P) (fun _ => Bears pool kind P)
      (attributeOf ⟨namer, none⟩ onCode site access raw) := by
  intro s _ t hs hrun
  obtain ⟨name, hfound, hbody⟩ := attributeOf_eq_ok_iff.1 hrun
  have hname : pool.utf8 raw.name = .ok name :=
    Pool.Question.ok_of_like (.utf8 raw.name) hs.pool hfound
  -- a signature may change what is known, a method body may have one in it, and nothing else may
  by_cases hsignature : AttributeKind.ofName name = .signature
  · obtain rfl := AttributeKind.name_of_signature hsignature
    obtain ⟨v, hinner, rfl⟩ := ok_of_within hbody
    obtain ⟨index, w, hread, hsign⟩ := EStateM.ok_of_bind hinner
    obtain ⟨rest, input, hfront, rfl⟩ := ok_of_u2 hread
    have hstart := (Decoder.Bears.lasting pool kind P).withInput input hs
    cases htext : s.pool.utf8 index with
    | ok text =>
      have hsigns' : raw.Signs pool text := ⟨hname, index, rest, hfront,
        Pool.Question.ok_of_like (.utf8 index) hs.pool htext⟩
      refine (Bears.signed hsigns' hsite hs hrun).mono fun signature h => ?_
      split at h
      · exact h ▸ hsigns text hsigns' ‹_›
      · exact h
    | error fault =>
      -- an index of something else offers nothing
      have hskipped : signatureAt ⟨namer, none⟩ site access index { s with input := input } =
          .ok () { s with input := input } :=
        @signatureAt_of_error _ _ fault { s with input := input } htext site access
      cases hskipped.symm.trans hsign
      exact (Decoder.Bears.lasting pool kind P).withInput _ hstart
  · by_cases hbodied : AttributeKind.ofName name = .code
    · obtain rfl := AttributeKind.name_of_code hbodied
      exact hcode hname _ _ _ hs hbody
    · have hkeeps : Keeps (Bears pool kind P) (fun _ => True)
          (attributeBody ⟨namer, none⟩ onCode site access (.ofName name)) :=
        @Lockstep.attributeBody _ _ _ lockstep onCode onCode site access _
          (fun h => absurd h hsignature) fun h => absurd h hbodied
      exact ((Decoder.Bears.lasting pool kind P).within hkeeps).leads _ _ _ hs hbody

/-- A method body that offers no other signatures than the member may have. -/
theorem Bears.within_code {raw : RawAttribute} (hname : pool.utf8 raw.name = .ok "Code")
    (hoffers : ∀ text, raw.Offers pool text → (Signature.scan text).fault = none → P (some text)) :
    Leads (Bears pool kind P) (fun _ => Bears pool kind P)
      (within raw.body (code ⟨namer, none⟩)) := by
  have hlasting := Decoder.Bears.lasting pool kind P
  refine leads_within (fun _ input hs => hlasting.withInput input hs) (Parses.code _)
    fun code rest hfits hbody => ?_
  refine .look fun s _ => ((hlasting.walking.walk s.targets code.code).leads).bind fun _ => ?_
  refine (Leads.forM fun handler _ => (hlasting.constant handler.2).leads).bind fun _ => ?_
  refine .forM fun inner hinner => Bears.attributeOf (by decide) (fun text hsigns => ?_) fun _ => ?_
  · exact hoffers text (.inr ⟨hname, code, rest, hfits, hbody, inner, hinner, hsigns⟩)
  · exact (hlasting.within (.pure ())).leads

/-- Attributes that offer no other signatures than the member may have. -/
theorem Bears.attributesOf {raws : List RawAttribute} {walking : Bool} {site : Site}
    (hsite : site ≠ .type) {access : Access}
    (hoffers : ∀ raw ∈ raws, ∀ text, raw.Offers pool text → (Signature.scan text).fault = none →
      P (some text)) :
    Leads (Bears pool kind P) (fun _ => Bears pool kind P)
      (attributesOf ⟨namer, none⟩ (if walking then code ⟨namer, none⟩ else pure ()) site access
        raws) := by
  refine .forM fun raw hraw => Bears.attributeOf hsite (fun text hsigns => ?_) fun hname => ?_
  · exact hoffers raw hraw text (.inl hsigns)
  · split
    · exact Bears.within_code hname (hoffers raw hraw)
    · exact ((Decoder.Bears.lasting pool kind P).within (.pure ())).leads

/-- What is read of a member by itself: it has no signature at first, and in the end that of the
member. -/
theorem attributesOf_of_alone {raw : RawMember} {walking : Bool} {member : Member}
    (h : raw.alone kind pool walking = some member) :
    ∃ (site : Site) (access : Access) (walks : Bool) (s t : Decoder), site ≠ .type ∧
      s.Bears pool kind (· = none) ∧
      attributesOf ⟨.exact, none⟩ (if walks then code ⟨.exact, none⟩ else pure ()) site access
        raw.attributes s = .ok () t ∧ ∀ P, t.Bears pool kind P → P member.signature := by
  obtain ⟨header, start, s, t, -, hopening, hopens, hrun, hmember⟩ := alone_eq_some h
  have hstart : s.Bears pool kind (· = none) := by
    refine ⟨hopens.pool ▸ .refl pool, hopens.last, start, ?_, (start_of_opening hopening).2⟩
    rw [hopens.members, Array.back?_push]
  have hend (P : Option String → Prop) (ht : t.Bears pool kind P) : P member.signature := by
    obtain ⟨found, hfound, hsignature⟩ := ht.signature
    cases hfound.symm.trans hmember
    exact hsignature
  cases kind with
  | field => exact ⟨.field, header.access, false, s, t, nofun, hstart, hrun, hend⟩
  | method =>
    refine ⟨_, header.access, s.walking, s, t, ?_, hstart, hrun, hend⟩
    split <;> exact nofun

/-- A table of attributes is gone through from front to back. -/
theorem attributesOf_append (c : Context) (onCode : Decode Unit) (site : Site) (access : Access)
    (front back : List RawAttribute) :
    attributesOf c onCode site access (front ++ back) =
      attributesOf c onCode site access front >>= fun _ =>
        attributesOf c onCode site access back := by
  rw [attributesOf, List.forM_eq_forM, List.forM_append]
  rfl

/-- What comes of a signature, if none is offered behind it. -/
theorem signature_of_parts {raw : RawMember} {walking : Bool} {member : Member}
    (h : raw.alone kind pool walking = some member) {front back : List RawAttribute}
    {found : RawAttribute} (hattributes : raw.attributes = front ++ found :: back)
    (hfront : ∀ other ∈ front, ∀ text, other.Offers pool text →
      (Signature.scan text).fault = none → P (some text)) (hnone : P none)
    {text : String} (hsigns : found.Signs pool text)
    (hback : ∀ other ∈ back, ∀ text, ¬other.Offers pool text) :
    if (Signature.scan text).fault = none then member.signature = some text
    else P member.signature := by
  obtain ⟨site, access, walks, s, t, hsite, hstart, hrun, hend⟩ := attributesOf_of_alone h
  rw [hattributes, attributesOf_append] at hrun
  obtain ⟨_, u, hbefore, hrest⟩ := EStateM.ok_of_bind hrun
  obtain ⟨_, v, hfound, hafter⟩ := EStateM.ok_of_bind hrest
  -- whatever is wanted of the front holds up to the signature, and nothing is offered behind it
  have hs : s.Bears pool kind P := hstart.mono fun _ h => h ▸ hnone
  have hu : u.Bears pool kind P := Bears.attributesOf hsite hfront s () u hs hbefore
  refine hend _ (Bears.attributesOf hsite (fun other hother text hoffers => ?_) v () t
    (Bears.signed hsigns hsite hu hfound) hafter)
  exact absurd hoffers (hback other hother text)

/-- The last signature that is offered is that of the member, if it is accepted. -/
theorem signature_of_last {raw : RawMember} {walking : Bool} {member : Member} {text : String}
    (h : raw.alone kind pool walking = some member) (hlast : raw.SignsLast pool text)
    (haccepted : (Signature.scan text).fault = none) : member.signature = some text := by
  obtain ⟨front, found, back, hattributes, hsigns, hback⟩ := hlast
  have hsignature := @signature_of_parts pool kind (fun _ => True) raw walking
    member h front back found hattributes (fun _ _ _ _ _ => trivial) trivial text hsigns hback
  rwa [if_pos haccepted] at hsignature

/-- Where nothing but a rejected signature is offered, the member has none. -/
theorem signature_of_only {raw : RawMember} {walking : Bool} {member : Member} {text : String}
    (h : raw.alone kind pool walking = some member) (honly : raw.SignsOnly pool text)
    (hrejected : (Signature.scan text).fault ≠ none) : member.signature = none := by
  obtain ⟨front, found, back, hattributes, hsigns, hothers⟩ := honly
  have hsignature := @signature_of_parts pool kind (· = none) raw walking member h front back found
    hattributes (fun other hother text hoffers =>
      absurd hoffers (hothers other (List.mem_append_left _ hother) text)) rfl text hsigns
    fun other hother => hothers other (List.mem_append_right _ hother)
  rwa [if_neg hrejected] at hsignature

/-- A member never has a signature that is rejected: the text is tried out before it is kept. -/
theorem signature_ne_of_alone {raw : RawMember} {walking : Bool} {member : Member}
    (h : raw.alone kind pool walking = some member) {text : String}
    (hfault : (Signature.scan text).fault ≠ none) : member.signature ≠ some text := by
  obtain ⟨site, access, walks, s, t, hsite, hstart, hrun, hend⟩ := attributesOf_of_alone h
  have hs : s.Bears pool kind (· ≠ some text) := hstart.mono fun _ h => h ▸ nofun
  refine hend _ (Bears.attributesOf hsite (fun raw _ other _ haccepted => ?_) s () t hs hrun)
  rintro ⟨rfl⟩
  exact hfault haccepted

end Decode

namespace Signature

open Scanner

/-- Where the parameters and the result end the scan ends as well, if exceptions follow. -/
theorem MethodTree.scan_eq {method : MethodTree} (hdepth : method.shape.depth ≤ nestingLimit) :
    scan method.text = ⟨method.shape.names,
      if method.thrown = [] then none
      else some (.descriptor method.text (.unexpected '^'))⟩ := by
  have hroom : initial.nesting = 0 := rfl
  have hshape (rest : List Char) := (goes_shape method.shape).passes (by omega) rest
  rw [MethodTree.text, scan_ofList, MethodTree.chars, hshape]
  cases method.thrown with
  | nil => simp [run, atEnd, telling, completed, afterType, initial]
  | cons thrown more =>
    have hstep : (initial.completed.telling method.shape.names).step '^' =
        .error (.unexpected '^') := rfl
    rw [List.flatMap_cons, List.cons_append, run, hstep]
    simp [telling, completed, initial]

end Signature

/-- **What becomes of the signature of a method** that is written from a tree. Without exceptions
the classes that it names are found, and a method of an accepted class has it, if it is the last
that the attributes offer. With exceptions the scan stops where they begin, so that no member ever
has it. -/
theorem Session.decode_throwing {method : Signature.MethodTree}
    (hdepth : method.shape.depth ≤ nestingLimit) :
    Signature.scan method.text = ⟨method.shape.names,
        if method.thrown = [] then none
        else some (.descriptor method.text (.unexpected '^'))⟩ ∧
      ∀ {options : Options} {bytes : Bytes} {session after : Session} {record : Record},
        session.decode options bytes = (.ok record, after) →
        ∃ layout trailing, Layout.form.Fits layout ∧
          bytes = Layout.form.encode layout ++ trailing ∧
          ∀ kind, List.Forall₂ (fun raw member =>
            if method.thrown = [] then
              raw.SignsLast layout.constants method.text → member.signature = some method.text
            else member.signature ≠ some method.text ∧
              (raw.SignsOnly layout.constants method.text → member.signature = none))
            (layout.members kind) (record.members kind).toList := by
  have hscan := Signature.MethodTree.scan_eq hdepth
  refine ⟨hscan, fun {options bytes session after record} h => ?_⟩
  obtain ⟨layout, trailing, hfits, rfl, s, hrun, -⟩ := decode_eq_ok_iff.1 h
  obtain ⟨-, walking, howns⟩ := Decode.classOf_record hfits rfl hrun
  refine ⟨layout, trailing, hfits, rfl, fun kind => (howns kind).imp fun raw member halone => ?_⟩
  have hfault := congrArg Signature.Scan.fault hscan
  dsimp only at hfault
  split
  · rename_i hthrown
    rw [if_pos hthrown] at hfault
    exact fun hlast => Decode.signature_of_last halone hlast hfault
  · rename_i hthrown
    rw [if_neg hthrown] at hfault
    have hrejected : (Signature.scan method.text).fault ≠ none := hfault ▸ nofun
    exact ⟨Decode.signature_ne_of_alone halone hrejected,
      fun honly => Decode.signature_of_only halone honly hrejected⟩

/-- The signature of a method without parameters and result that throws `a/E`. -/
def Signature.throwing : MethodTree where
  parameters := []
  result := .primitive .void
  thrown := [.object (.plain "a/E" (by simp))]

/-- The signature of a method with a generic parameter that throws nothing. -/
def Signature.throwingNothing : MethodTree where
  parameters := [.object (.outermost ⟨['a', '/', 'B'], by simp, by simp⟩
    [.type .exactly (.object (.plain "a/C" (by simp)))])]
  result := .primitive .void

/-- An interface `A` with two methods, each of which has one of these signatures. -/
def signedMethods : Layout where
  minor := 0
  major := 52
  pool := [0, 9, 1, 0, 1, 65, 7, 0, 1, 1, 0, 1, 109, 1, 0, 3, 40, 41, 86, 1, 0, 9, 83, 105, 103,
    110, 97, 116, 117, 114, 101, 1, 0, 9, 40, 41, 86, 94, 76, 97, 47, 69, 59, 1, 0, 8, 40, 76, 97,
    47, 66, 59, 41, 86, 1, 0, 15, 40, 76, 97, 47, 66, 60, 76, 97, 47, 67, 59, 62, 59, 41, 86]
  access := 0x601
  name := 2
  superclass := 0
  interfaces := []
  fields := []
  methods := [⟨0x401, 3, 4, [⟨5, [0, 6]⟩]⟩, ⟨0x401, 3, 7, [⟨5, [0, 8]⟩]⟩]
  attributes := []

/-- The class is accepted, and its second method has its signature. -/
theorem signedMethods_signatures :
    (Session.decode {} (Layout.form.encode signedMethods) {}).1.toOption.map
      (·.methods.toList.map Member.signature) = some [none, some "(La/B<La/C;>;)V"] := by
  decide +kernel

/-- Both signatures are written from trees, and the class is accepted. The signature of the method
that throws nothing is kept, and that of the method with an exception is dropped. -/
theorem Session.decode_throwing_of_methods :
    let file := Layout.form.encode signedMethods
    Signature.throwing.shape.depth ≤ nestingLimit ∧
      Signature.throwingNothing.shape.depth ≤ nestingLimit ∧
      Signature.scan "()V^La/E;" = ⟨[], some (.descriptor "()V^La/E;" (.unexpected '^'))⟩ ∧
      Signature.scan "(La/B<La/C;>;)V" = ⟨["a/C", "a/B"], none⟩ ∧
      ∃ record after, Session.decode {} file {} = (.ok record, after) ∧
        record.methods.toList.map Member.signature = [none, some "(La/B<La/C;>;)V"] ∧
        ∃ layout trailing, Layout.form.Fits layout ∧ file = Layout.form.encode layout ++ trailing ∧
          ∀ kind, List.Forall₂ (fun raw member => member.signature ≠ some "()V^La/E;" ∧
            (raw.SignsOnly layout.constants "()V^La/E;" → member.signature = none))
            (layout.members kind) (record.members kind).toList := by
  intro file
  obtain ⟨record, after, hrun, hmethods⟩ := Session.decode_of_map signedMethods_signatures
  have hthrowing : Signature.throwing.shape.depth ≤ nestingLimit := by decide
  have hnothing : Signature.throwingNothing.shape.depth ≤ nestingLimit := by decide
  exact ⟨hthrowing, hnothing, (Session.decode_throwing hthrowing).1,
    (Session.decode_throwing hnothing).1, record, after, hrun, hmethods,
    (Session.decode_throwing hthrowing).2 hrun⟩

/-- A signature of the grammar that names a class and is rejected for its exception, so that the
method has none. -/
theorem Session.decode_throwing_differs :
    let file := Layout.form.encode signedMethods
    ∃ method : Signature.MethodTree, method.shape.depth ≤ nestingLimit ∧
      method.text = "()V^La/E;" ∧ (method.thrown.map (·.type)).flatMap (·.names) = ["a/E"] ∧
      Signature.scan method.text =
        ⟨[], some (.descriptor "()V^La/E;" (.unexpected '^'))⟩ ∧
      (∃ raw ∈ signedMethods.methods.head?, raw.SignsOnly signedMethods.constants method.text) ∧
      ∃ record after, Session.decode {} file {} = (.ok record, after) ∧
        record.methods.toList.map Member.signature = [none, some "(La/B<La/C;>;)V"] := by
  intro file
  have hsigns : RawAttribute.Signs signedMethods.constants "()V^La/E;" ⟨5, [0, 6]⟩ :=
    ⟨by decide +kernel, 6, [], by decide, by decide +kernel⟩
  exact ⟨Signature.throwing, by decide, by decide, by decide, by decide,
    ⟨_, rfl, [], _, [], rfl, hsigns, nofun⟩, Session.decode_of_map signedMethods_signatures⟩

end ClassFile
