import ClassFile.Proofs.Growth
import ClassFile.Proofs.Unambiguous

/-!
# Every class that a member names is referred to

The descriptor and the generic signature of a field or method name classes. When a class file
has been decoded without a listener, each of them is among the references, unless its name is
that of a primitive type or its package is the one of the primitive types; and in a public
class its package is exposed if the member is visible and the name stands in the descriptor, or
in a signature among the member's own attributes (`ClassFile.Session.decode_references`).

A method can have a signature that is not among its own attributes: one in its body. The names
in that are referred to, but they are not exposed.

The invariant is `ClassFile.Decoder.Lists`: the members on record are those that were read,
and what each of them names was referred to. An attribute keeps it because it may change the
signature of the current member only, and a member extends the list by one.
-/

namespace ClassFile

/-! ### Signatures among the attributes -/

/-- The attribute is a signature with this text. -/
def RawAttribute.Signs (pool : Pool) (text : String) (raw : RawAttribute) : Prop :=
  pool.utf8 raw.name = .ok "Signature" ∧
    ∃ index rest, raw.body = Form.u2.encode index ++ rest ∧ pool.utf8 index = .ok text

namespace RawMember

/-- Among the attributes of the member there is a signature with this text. -/
def Signs (pool : Pool) (text : String) (raw : RawMember) : Prop :=
  ∃ found ∈ raw.attributes, found.Signs pool text

/-- Among the attributes of the member there is a method body. -/
def HasBody (pool : Pool) (raw : RawMember) : Prop :=
  ∃ found ∈ raw.attributes, pool.utf8 found.name = .ok "Code"

/-- The member may come by a signature with this text: its own, or, for a method, one in its
body. -/
def MaySign (kind : LastMember) (pool : Pool) (raw : RawMember) (text : String) : Prop :=
  raw.Signs pool text ∨ kind = .method ∧ raw.HasBody pool

end RawMember

theorem AttributeKind.name_of_signature {name : String} (h : ofName name = .signature) :
    name = "Signature" := by
  unfold ofName at h
  split at h
  all_goals first
    | rfl
    | cases h

theorem AttributeKind.name_of_code {name : String} (h : ofName name = .code) :
    name = "Code" := by
  unfold ofName at h
  split at h
  all_goals first
    | rfl
    | cases h

namespace Decoder

variable {namer : Namer} {s t : Decoder}

/-- Whether an attribute is a signature of a text depends on the texts of the pool, which stay. -/
theorem Grows.signs (h : s.Grows namer t) (text : String) (raw : RawAttribute) :
    raw.Signs t.pool text ↔ raw.Signs s.pool text := by
  simp only [RawAttribute.Signs, h.utf8]

/-- The same of a member and the signatures among its attributes. -/
theorem Grows.signs_member (h : s.Grows namer t) (text : String) (raw : RawMember) :
    raw.Signs t.pool text ↔ raw.Signs s.pool text := by
  simp only [RawMember.Signs, h.signs]

/-- And of what may become the signature of a member, which includes what stands in its bodies. -/
theorem Grows.maySign (h : s.Grows namer t) (kind : LastMember) (text : String)
    (raw : RawMember) : raw.MaySign kind t.pool text ↔ raw.MaySign kind s.pool text := by
  simp only [RawMember.MaySign, RawMember.HasBody, h.signs_member, h.utf8]

/-! ### Members and what they name -/

/-- A member on record is the one that was read, and all that it names was referred to. -/
structure Tells (namer : Namer) (kind : LastMember) (raw : RawMember) (member : Member)
    (s : Decoder) : Prop where
  access : member.access = raw.access
  name : s.pool.utf8 raw.name = .ok member.name
  descriptor : s.pool.utf8 raw.descriptor = .ok member.descriptor
  signature (text : String) : member.signature = some text → raw.MaySign kind s.pool text
  heard_descriptor : s.Heard namer raw.access member.descriptor
  heard_signature (text : String) : member.signature = some text → s.Heard namer 0 text
  heard_own (text : String) : raw.Signs s.pool text → s.Heard namer raw.access text

/-- The members of one kind are those that were read, one by one. -/
structure Lists (namer : Namer) (kind : LastMember) (raws : List RawMember) (s : Decoder) :
    Prop where
  size : (s.members kind).size = raws.length
  tells (i : Nat) (raw : RawMember) (member : Member) : raws[i]? = some raw →
    (s.members kind)[i]? = some member → s.Tells namer kind raw member

variable {kind : LastMember} {raw : RawMember} {raws : List RawMember} {allowed : String → Prop}

/-- What a member tells stays true while its header and its signature do not change. -/
theorem Tells.mono {earlier later : Member} (h : s.Tells namer kind raw earlier)
    (hgrows : s.Grows namer t) (haccess : later.access = earlier.access)
    (hname : later.name = earlier.name) (hdescriptor : later.descriptor = earlier.descriptor)
    (hsignature : later.signature = earlier.signature) : t.Tells namer kind raw later where
  access := haccess.trans h.access
  name := by rw [hgrows.utf8, hname, h.name]
  descriptor := by rw [hgrows.utf8, hdescriptor, h.descriptor]
  signature text htext := (hgrows.maySign ..).2 (h.signature text (hsignature ▸ htext))
  heard_descriptor := hdescriptor ▸ hgrows.heard h.heard_descriptor
  heard_signature text htext := hgrows.heard (h.heard_signature text (hsignature ▸ htext))
  heard_own text htext := hgrows.heard (h.heard_own text ((hgrows.signs_member ..).1 htext))

/-- The members on record are still listed if they are the same, and everything that was heard of
them stays heard. -/
theorem Lists.of_members (h : s.Lists namer kind raws) (hgrows : s.Grows namer t)
    (hmembers : t.members kind = s.members kind) : t.Lists namer kind raws where
  size := by rw [hmembers, h.size]
  tells i raw member hraw hmember :=
    (h.tells i raw member hraw (hmembers ▸ hmember)).mono hgrows rfl rfl rfl rfl

/-- Attributes of something else leave the members as they are. -/
theorem Lists.of_extends (h : s.Lists namer kind raws) (hextends : s.Extends namer allowed t)
    (hlast : s.last ≠ some kind) : t.Lists namer kind raws where
  size := (hextends.size kind).trans h.size
  tells i raw later hraw hlater := by
    obtain ⟨earlier, hearlier, haccess, hname, hdescriptor, hsignature⟩ := hextends.earlier hlater
    rcases hsignature with hsame | ⟨⟨hcurrent, -⟩, -⟩
    · exact (h.tells i raw earlier hraw hearlier).mono hextends.toGrows haccess hname hdescriptor
        hsame
    · exact absurd hcurrent hlast

/-- A member was put on record, after the classes in its descriptor were referred to. -/
structure Opens (namer : Namer) (kind : LastMember) (header : Decode.MemberHeader)
    (member : Member) (s t : Decoder) : Prop extends s.Grows namer t where
  last : t.last = some kind
  access : t.record.map Record.access = s.record.map Record.access
  push : t.members kind = (s.members kind).push member
  others (other : LastMember) : other ≠ kind → t.members other = s.members other
  heard_descriptor : t.Heard namer header.access header.descriptor

section Joining

variable {header : Decode.MemberHeader} {member : Member} {u : Decoder}
  (hopens : s.Opens namer kind header member t)
  (hstart : member.access = header.access ∧ member.name = header.name ∧
    member.descriptor = header.descriptor ∧ member.signature = none)
  (hheader : header.access = raw.access ∧ s.pool.utf8 raw.name = .ok header.name ∧
    s.pool.utf8 raw.descriptor = .ok header.descriptor)
  (hextends : t.Extends namer (raw.MaySign kind s.pool) u)
  (hown : ∀ text, raw.Signs s.pool text → u.Heard namer raw.access text)
include hopens hstart hheader hextends hown

/-- The member that was put on record tells what was read once its attributes were. -/
theorem Opens.tells {later : Member} (haccess : later.access = member.access)
    (hname : later.name = member.name) (hdescriptor : later.descriptor = member.descriptor)
    (hsignature : ∀ text, later.signature = some text →
      raw.MaySign kind s.pool text ∧ u.Heard namer 0 text) : u.Tells namer kind raw later := by
  obtain ⟨haccess', hname', hdescriptor', -⟩ := hstart
  obtain ⟨hheader, hrawName, hrawDescriptor⟩ := hheader
  have hgrows : s.Grows namer u := hopens.toGrows.trans hextends.toGrows
  exact {
    access := haccess.trans (haccess'.trans hheader)
    name := by rw [hgrows.utf8, hrawName, hname, hname']
    descriptor := by rw [hgrows.utf8, hrawDescriptor, hdescriptor, hdescriptor']
    signature := fun text htext => (hgrows.maySign ..).2 (hsignature text htext).1
    heard_descriptor := by
      rw [hdescriptor, hdescriptor', ← hheader]
      exact hextends.heard hopens.heard_descriptor
    heard_signature := fun text htext => (hsignature text htext).2
    heard_own := fun text htext => hown text ((hgrows.signs_member ..).1 htext) }

/-- A member that was read joins the others of its kind, behind them. -/
theorem Lists.push (h : s.Lists namer kind raws) : u.Lists namer kind (raws ++ [raw]) where
  size := by
    rw [hextends.size, hopens.push, Array.size_push, h.size, List.length_append,
      List.length_singleton]
  tells i other later hraw hlater := by
    obtain ⟨earlier, hearlier, haccess, hname, hdescriptor, hsignature⟩ := hextends.earlier hlater
    rw [hopens.push, Array.getElem?_push] at hearlier
    split at hearlier
    -- the new member, whose attributes were read
    · rename_i hi
      cases hearlier
      rw [List.getElem?_append_right (Nat.le_of_eq (hi.trans h.size).symm), hi, h.size,
        Nat.sub_self] at hraw
      cases hraw
      refine hopens.tells hstart hheader hextends hown haccess hname hdescriptor
        fun text htext => ?_
      rcases hsignature with hsame | ⟨-, found, hfound, hmay, hheard⟩
      · rw [hsame, hstart.2.2.2] at htext
        cases htext
      · rw [hfound] at htext
        cases htext
        exact ⟨hmay, hheard⟩
    -- one of the others
    · have hlt : i < raws.length := h.size ▸ (Array.getElem?_eq_some_iff.1 hearlier).1
      rw [List.getElem?_append_left hlt] at hraw
      refine (h.tells i other earlier hraw hearlier).mono (hopens.toGrows.trans hextends.toGrows)
        haccess hname hdescriptor ?_
      rcases hsignature with hsame | ⟨⟨-, hsize⟩, -⟩
      · exact hsame
      · rw [hopens.push, Array.size_push, h.size] at hsize
        omega

end Joining

/-- The members of the other kind stay, and so do the names that were heard of them. -/
theorem Lists.other {header : Decode.MemberHeader} {member : Member} {u : Decoder}
    {other : LastMember} (h : s.Lists namer other raws)
    (hopens : s.Opens namer kind header member t) (hextends : t.Extends namer allowed u)
    (hother : other ≠ kind) : u.Lists namer other raws := by
  have ht : t.Lists namer other raws := h.of_members hopens.toGrows (hopens.others other hother)
  refine ht.of_extends hextends fun hlast => hother ?_
  rw [hopens.last] at hlast
  exact (Option.some.inj hlast).symm

/-- Members of one kind that were read join those on record, and nothing else changes. -/
structure Adds (namer : Namer) (kind : LastMember) (added : List RawMember) (s t : Decoder) :
    Prop extends s.Grows namer t where
  access : t.record.map Record.access = s.record.map Record.access
  lists (raws : List RawMember) : s.Lists namer kind raws → t.Lists namer kind (raws ++ added)
  others (other : LastMember) (raws : List RawMember) : other ≠ kind →
    s.Lists namer other raws → t.Lists namer other raws

theorem Adds.nil (namer : Namer) (kind : LastMember) (s : Decoder) : s.Adds namer kind [] s where
  toGrows := .refl namer s
  access := rfl
  lists raws h := (List.append_nil raws).symm ▸ h
  others _ _ _ h := h

/-- What is added in one stretch, and what is added in the next, is added in both together. -/
theorem Adds.append {added further : List RawMember} {u : Decoder}
    (h : s.Adds namer kind added t) (h' : t.Adds namer kind further u) :
    s.Adds namer kind (added ++ further) u where
  toGrows := h.toGrows.trans h'.toGrows
  access := h'.access.trans h.access
  lists raws hs := List.append_assoc raws added further ▸ h'.lists _ (h.lists raws hs)
  others other raws hother hs := h'.others other raws hother (h.others other raws hother hs)

/-- The header of a class is on record: its flags, no members, and an empty list of exposed
packages if the class is public. The texts of the pool are those of the layout. -/
structure Headed (namer : Namer) (layout : Layout) (s : Decoder) : Prop where
  access : s.record.map Record.access = some layout.access
  members (kind : LastMember) : s.members kind = #[]
  last : s.last = none
  isSome_api : s.api.isSome = layout.access.isPublic
  utf8 (index : UInt16) (text : String) :
    s.pool.utf8 index = .ok text ↔ layout.constants.utf8 index = .ok text
  sound : s.Sound namer

end Decoder

namespace Decode

open Decoder

variable {namer : Namer} {allowed : String → Prop}

/-- A number that was read stood at the front of the input. -/
theorem ok_of_u2 {s t : Decoder} {n : UInt16} (h : Decode.u2 s = .ok n t) :
    ∃ rest input, s.input.rest = Form.u2.encode n ++ rest ∧ t = { s with input := input } := by
  obtain ⟨_, rest, -, hfront, hread⟩ := (Parses.u2.eq_ok_iff _ _ _).1 h
  cases hread
  exact ⟨rest, _, hfront, rfl⟩

section Steady

variable (hsteady : namer.Steady)
include hsteady

/-! ### Attributes -/

/-- A signature extends what was collected, and all names in it were referred to. -/
theorem signatureAttribute_within {site : Site} {access : Access} {raw : RawAttribute}
    {s t : Decoder} (hname : s.pool.utf8 raw.name = .ok "Signature")
    (hallowed : ∀ text, raw.Signs s.pool text → allowed text)
    (hrun : within raw.body (signatureAttribute ⟨namer, none⟩ site access) s = .ok () t) :
    s.Extends namer allowed t ∧ ∀ text, raw.Signs s.pool text → t.Heard namer access text := by
  obtain ⟨v, hbody, rfl⟩ := ok_of_within hrun
  obtain ⟨index, w, hread, hsign⟩ := EStateM.ok_of_bind hbody
  obtain ⟨rest, input, hfront, hw⟩ := ok_of_u2 hread
  have hinput (u : Decoder) (input : Input) : u.Extends namer allowed { u with input := input } :=
    .of_record (.of_eq rfl rfl rfl rfl) rfl rfl
  have hstart : s.Extends namer allowed w := hw ▸ hinput s input
  have hpool : w.pool = s.pool := by rw [hw]
  -- only the index at the front of the body counts
  have hindex {text : String} (h : raw.Signs s.pool text) : s.pool.utf8 index = .ok text := by
    obtain ⟨-, other, rest', hfront', htext⟩ := h
    rw [(Form.Distinct.u2 trivial trivial (hfront.symm.trans hfront')).1]
    exact htext
  cases htext : s.pool.utf8 index with
  | error fault =>
    rw [signatureAt_of_error (hpool ▸ htext)] at hsign
    cases hsign
    refine ⟨hstart.trans (hinput v s.input), fun text htext' => ?_⟩
    rw [hindex htext'] at htext
    cases htext
  | ok text =>
    have hsigns : raw.Signs s.pool text := ⟨hname, index, rest, hfront, htext⟩
    obtain ⟨u, hends, hextends, hheard⟩ :=
      signatureAt_ends hsteady (hpool ▸ htext) (hallowed text hsigns) site access
    obtain rfl := hends.unique hsign
    refine ⟨hstart.trans (hextends.trans (hinput u s.input)), fun text' htext' => ?_⟩
    rw [hindex htext'] at htext
    cases htext
    exact (hinput u s.input).heard hheard

/-- An attribute extends what was collected. If it is a signature, then all names in it were
referred to, with the flags of what it stands on. -/
theorem attributeOf_ok {onCode : Decode Unit} {site : Site} {access : Access}
    {raw : RawAttribute} {s t : Decoder}
    (hcode : s.pool.utf8 raw.name = .ok "Code" → Extending namer allowed onCode)
    (hallowed : ∀ text, raw.Signs s.pool text → allowed text)
    (hrun : attributeOf ⟨namer, none⟩ onCode site access raw s = .ok () t) :
    s.Extends namer allowed t ∧ ∀ text, raw.Signs s.pool text → t.Heard namer access text := by
  obtain ⟨name, hname, hbody⟩ := attributeOf_eq_ok_iff.1 hrun
  by_cases hkind : AttributeKind.ofName name = .signature
  · obtain rfl := AttributeKind.name_of_signature hkind
    have hbody : within raw.body (signatureAttribute ⟨namer, none⟩ site access) s = .ok () t :=
      hbody
    exact signatureAttribute_within hsteady hname hallowed hbody
  · have hextending : Extending namer allowed
        (attributeBody ⟨namer, none⟩ onCode site access (.ofName name)) :=
      @Lockstep.attributeBody _ _ _ (Extending.lockstep hsteady) onCode onCode site access _
        (fun h => absurd h hkind) fun h => hcode (AttributeKind.name_of_code h ▸ hname)
    refine ⟨hextending.within.ok hbody, ?_⟩
    rintro text ⟨hsignature, -⟩
    rw [hname] at hsignature
    cases hsignature
    exact absurd rfl hkind

/-- In a table of attributes the names of every signature are referred to, with the flags of the
member. A method body among them may do more. -/
theorem attributesOf_ok {onCode : Decode Unit} {site : Site} {access : Access}
    {raws : List RawAttribute} {s t : Decoder}
    (hcode : (∃ raw ∈ raws, s.pool.utf8 raw.name = .ok "Code") → Extending namer allowed onCode)
    (hallowed : ∀ raw ∈ raws, ∀ text, raw.Signs s.pool text → allowed text)
    (hrun : attributesOf ⟨namer, none⟩ onCode site access raws s = .ok () t) :
    s.Extends namer allowed t ∧
      ∀ raw ∈ raws, ∀ text, raw.Signs s.pool text → t.Heard namer access text := by
  induction raws generalizing s with
  | nil =>
    cases hrun
    exact ⟨.refl namer allowed _, nofun⟩
  | cons raw raws ih =>
    obtain ⟨_, u, hfirst, hrest⟩ := EStateM.ok_of_bind hrun
    obtain ⟨hextends, hheard⟩ := attributeOf_ok hsteady
      (fun h => hcode ⟨raw, List.mem_cons_self, h⟩) (hallowed raw List.mem_cons_self) hfirst
    have htail : u.Extends namer allowed t ∧
        ∀ raw ∈ raws, ∀ text, raw.Signs u.pool text → t.Heard namer access text := by
      refine ih ?_ ?_ hrest
      · rintro ⟨found, hmem, hname⟩
        exact hcode ⟨found, List.mem_cons_of_mem raw hmem, (hextends.utf8 ..).1 hname⟩
      · intro found hmem text hsigns
        exact hallowed found (List.mem_cons_of_mem raw hmem) text
          ((hextends.signs text found).1 hsigns)
    refine ⟨hextends.trans htail.1, List.forall_mem_cons.2 ⟨?_, ?_⟩⟩
    · exact fun text hsigns => htail.1.heard (hheard text hsigns)
    · exact fun found hmem text hsigns =>
        htail.2 found hmem text ((hextends.signs text found).2 hsigns)

/-! ### The start of a member -/

/-- A member is put on record after its descriptor was referred to. -/
theorem push_ok {kind : LastMember} {header : MemberHeader} {member : Member}
    {f : Record → Record} {event : Event} {s t : Decoder}
    (haccess : ∀ record, (f record).access = record.access)
    (hpush : ∀ record, (f record).members kind = (record.members kind).push member)
    (hothers : ∀ record other, other ≠ kind → (f record).members other = record.members other)
    (htext : s.pool.utf8 header.descriptorIndex = .ok header.descriptor)
    (hrun : (tell ⟨namer, none⟩ event >>= fun _ =>
      referDescriptor ⟨namer, none⟩ header.descriptorIndex header.access >>= fun _ =>
      updateRecord f >>= fun _ => modify fun s => { s with last := some kind }) s = .ok () t) :
    s.Opens namer kind header member t := by
  obtain ⟨_, _, htell, hrest⟩ := EStateM.ok_of_bind hrun
  cases htell
  obtain ⟨_, u, hrefer, hrest⟩ := EStateM.ok_of_bind hrest
  obtain ⟨_, v, hupdate, hlast⟩ := EStateM.ok_of_bind hrest
  obtain ⟨u', hends, hgrows, hheard, hrecord, -⟩ :=
    referDescriptor_ends hsteady htext header.access
  obtain rfl := hends.unique hrefer
  cases hlast
  cases hfound : u'.record with
  | none =>
    rw [updateRecord_of_none hfound] at hupdate
    cases hupdate
  | some found =>
    rw [updateRecord_of_some hfound] at hupdate
    cases hupdate
    rw [hfound] at hrecord
    have hdone : u'.Grows namer { u' with record := some (f found), last := some kind } :=
      .of_eq rfl rfl rfl rfl
    refine ⟨hgrows.trans hdone, rfl, ?_, ?_, ?_, hdone.heard hheard⟩
    · rw [← hrecord]
      exact congrArg some (haccess found)
    · rw [Decoder.members, Decoder.members, ← hrecord]
      exact hpush found
    · intro other hother
      rw [Decoder.members, Decoder.members, ← hrecord]
      exact hothers found other hother

/-- A field that is opened is on record with its descriptor, the names of which were referred to
with the flags of the field. -/
theorem openField_ok {header : MemberHeader} {s t : Decoder}
    (htext : s.pool.utf8 header.descriptorIndex = .ok header.descriptor)
    (hrun : openField ⟨namer, none⟩ header s = .ok () t) :
    s.Opens namer .field header (.field header.access header.name header.descriptor) t := by
  have hpush {record : Record} (other : LastMember) (h : other ≠ .field) (fields : Array Member) :
      ({ record with fields } : Record).members other = record.members other := by
    cases other with
    | field => exact absurd rfl h
    | method => rfl
  rw [openField] at hrun
  split at hrun
  · obtain ⟨_, u, hwalk, hrest⟩ := EStateM.ok_of_bind hrun
    cases hwalk
    have hwalking : s.Grows namer { s with walking := true } := .of_eq rfl rfl rfl rfl
    have hopens : Decoder.Opens namer .field header
        (.field header.access header.name header.descriptor) { s with walking := true } t := by
      refine push_ok hsteady ?_ ?_ ?_ htext hrest
      · exact fun _ => rfl
      · exact fun _ => rfl
      · exact fun _ other h => hpush other h _
    exact ⟨hwalking.trans hopens.toGrows, hopens.last, hopens.access, hopens.push, hopens.others,
      hopens.heard_descriptor⟩
  · refine push_ok hsteady ?_ ?_ ?_ htext hrun
    · exact fun _ => rfl
    · exact fun _ => rfl
    · exact fun _ other h => hpush other h _

/-- The same of a method. Both are opened alike but for where they are put. -/
theorem openMethod_ok {header : MemberHeader} {s t : Decoder}
    (htext : s.pool.utf8 header.descriptorIndex = .ok header.descriptor)
    (hrun : openMethod ⟨namer, none⟩ header s = .ok () t) :
    ∃ prototype, s.Opens namer .method header
      (.method header.access header.name header.descriptor prototype) t := by
  rw [openMethod] at hrun
  cases harguments : Signature.arguments header.descriptor with
  | error fault =>
    rw [harguments] at hrun
    cases hrun
  | ok arguments =>
    rw [harguments] at hrun
    obtain ⟨_, u, hpure, hrest⟩ := EStateM.ok_of_bind hrun
    cases hpure
    refine ⟨arguments.map TypeName.ofText, push_ok hsteady ?_ ?_ ?_ htext hrest⟩
    · exact fun _ => rfl
    · exact fun _ => rfl
    · intro record other h
      cases other with
      | field => rfl
      | method => exact absurd rfl h

/-! ### Members -/

end Steady

section Steady

variable (hsteady : namer.Steady)
include hsteady

/-- The attributes of a member that was put on record. -/
theorem attributes_ok {kind : LastMember} {raw : RawMember} {header : MemberHeader}
    {member : Member} {onCode : Decode Unit} {site : Site} {s t u : Decoder}
    (hopens : s.Opens namer kind header member t)
    (hstart : member.access = header.access ∧ member.name = header.name ∧
      member.descriptor = header.descriptor ∧ member.signature = none)
    (hheader : header.access = raw.access ∧ s.pool.utf8 raw.name = .ok header.name ∧
      s.pool.utf8 raw.descriptor = .ok header.descriptor)
    (hcode : raw.HasBody t.pool → Extending namer (raw.MaySign kind s.pool) onCode)
    (hrun : attributesOf ⟨namer, none⟩ onCode site header.access raw.attributes t = .ok () u) :
    s.Adds namer kind [raw] u := by
  have hmay (found : RawAttribute) (hmem : found ∈ raw.attributes) (text : String)
      (hsigns : found.Signs t.pool text) : raw.MaySign kind s.pool text :=
    .inl ⟨found, hmem, (hopens.signs text found).1 hsigns⟩
  obtain ⟨hextends, hheard⟩ := attributesOf_ok hsteady hcode hmay hrun
  refine ⟨hopens.toGrows.trans hextends.toGrows, hextends.access.trans hopens.access,
    fun raws h => h.push hopens hstart hheader hextends ?_,
    fun other raws hother h => h.other hopens hextends hother⟩
  rintro text ⟨found, hmem, hsigns⟩
  rw [← hheader.1]
  exact hheard found hmem text ((hopens.signs text found).2 hsigns)

/-- A field is added with its descriptor and its signature heard. -/
theorem fieldOf_ok {raw : RawMember} {s t : Decoder}
    (hrun : fieldOf ⟨namer, none⟩ raw s = .ok () t) : s.Adds namer .field [raw] t := by
  obtain ⟨header, _, hread, hrest⟩ := EStateM.ok_of_bind hrun
  obtain ⟨rfl, haccess, hindex, hname, hdescriptor⟩ := memberHeaderOf_ok hread
  obtain ⟨_, u, hopen, hattributes⟩ := EStateM.ok_of_bind hrest
  have hopens := openField_ok hsteady (hindex ▸ hdescriptor) hopen
  exact attributes_ok hsteady hopens ⟨rfl, rfl, rfl, rfl⟩ ⟨haccess, hname, hdescriptor⟩
    (fun _ _ => Keeps.pure ()) hattributes

/-- A method is added likewise, though its signature may come from one of its bodies. -/
theorem methodOf_ok {raw : RawMember} {s t : Decoder}
    (hrun : methodOf ⟨namer, none⟩ raw s = .ok () t) : s.Adds namer .method [raw] t := by
  obtain ⟨header, _, hread, hrest⟩ := EStateM.ok_of_bind hrun
  obtain ⟨rfl, haccess, hindex, hname, hdescriptor⟩ := memberHeaderOf_ok hread
  obtain ⟨_, u, hopen, hattributes⟩ := EStateM.ok_of_bind hrest
  obtain ⟨prototype, hopens⟩ := openMethod_ok hsteady (hindex ▸ hdescriptor) hopen
  refine attributes_ok hsteady hopens ⟨rfl, rfl, rfl, rfl⟩ ⟨haccess, hname, hdescriptor⟩ ?_
    (show attributesOf _ (if u.walking then _ else _) _ _ _ u = _ from hattributes)
  rintro ⟨found, hmem, hname⟩
  split
  · exact code_extending hsteady fun _ => .inr ⟨rfl, found, hmem, (hopens.utf8 ..).1 hname⟩
  · exact fun _ => Keeps.pure ()

omit hsteady in
/-- All members of one kind are on record in the order of the file, each with its names heard. It is
an induction over the members that are left. -/
theorem members_ok {kind : LastMember} {act : RawMember → Decode Unit}
    (hact : ∀ raw s t, act raw s = .ok () t → s.Adds namer kind [raw] t)
    {raws : List RawMember} {s t : Decoder} (hrun : raws.forM act s = .ok () t) :
    s.Adds namer kind raws t := by
  induction raws generalizing s with
  | nil =>
    cases hrun
    exact .nil namer kind _
  | cons raw raws ih =>
    obtain ⟨_, u, hfirst, hrest⟩ := EStateM.ok_of_bind hrun
    exact (hact raw s u hfirst).append (ih hrest)

/-! ### The class -/

/-- A superclass is referred to and put on record, which does not touch the members. -/
theorem superclassAt_extending (access : Access) (index : UInt16) :
    Extending namer allowed (superclassAt ⟨namer, none⟩ access index) := by
  intro s₀
  rw [superclassAt]
  split
  · refine Keeps.bind ((Extending.lockstep hsteady).classAt index s₀) fun type => ?_
    refine Keeps.bind (Extending.refer hsteady type access s₀) fun _ => ?_
    refine Keeps.bind (Extending.tell _ s₀) fun _ => ?_
    have hkept : Extending namer allowed
        (updateRecord fun record => { record with superclass := some type }) :=
      .updateRecord (fun _ => rfl) fun _ kind => by cases kind <;> rfl
    exact hkept s₀
  · exact Keeps.pure ()

/-- Nor do the interfaces. -/
theorem interfacesOf_extending (access : Access) (indices : List UInt16) :
    Extending namer allowed (interfacesOf ⟨namer, none⟩ access indices) := by
  have hone (index : UInt16) :
      Extending namer allowed (interfaceAt ⟨namer, none⟩ access index) := by
    intro s₀
    refine Keeps.bind ((Extending.lockstep hsteady).classAt index s₀) fun type => ?_
    exact Keeps.bind (Extending.refer hsteady type access s₀) fun _ => Keeps.pure type
  have hall : Extending namer allowed (indices.mapM (interfaceAt ⟨namer, none⟩ access)) := by
    induction indices with
    | nil => exact fun _ => Keeps.pure []
    | cons index indices ih =>
      rw [List.mapM_cons]
      exact fun s₀ => Keeps.bind (hone index s₀) fun _ => Keeps.bind (ih s₀) fun _ => Keeps.pure _
  intro s₀
  refine Keeps.bind (hall s₀) fun types => ?_
  have hkept : Extending namer allowed
      (updateRecord fun record => { record with interfaces := types }) :=
    .updateRecord (fun _ => rfl) fun _ kind => by cases kind <;> rfl
  rw [keepInterfaces]
  split
  · exact hkept s₀
  · exact Keeps.bind (Extending.tell _ s₀) fun _ => hkept s₀

/-- What the pool names is collected before there are any members. -/
theorem pooled_extending : Pooled ⟨namer, none⟩ ⟨namer, none⟩ fun m _ =>
    Extending namer allowed m where
  toReferring := (Extending.naming hsteady).referring
  constant := Extending.constant hsteady
  lookPool h _ := Keeps.look fun s => h s s (.refl _) _

/-- When the name of the class is known, nothing but what the pool names was collected, and no
member is on record. -/
theorem classHeaderOf_ok {layout : Layout} {found : Record × Bool} {s t : Decoder}
    (hempty : s.references = ∅) (hlast : s.last = none)
    (hrun : classHeaderOf ⟨namer, none⟩ layout.toRawHeader s = .ok found t) :
    t.Headed namer layout := by
  obtain ⟨u, name, hrefer, hname, rfl, hopen⟩ := classHeaderOf_eq_ok_iff.1 hrun
  let filled : Decoder := { s with pool := layout.constants }
  have hreferred : filled.Extends namer (fun _ => True) u :=
    ((pooled_extending hsteady).referPool).ok hrefer
  obtain ⟨v, hclass, rfl⟩ := openClass_eq_ok_iff.1 hopen
  obtain ⟨w, hrefer, hgrows, -, -, hkept⟩ := refer_ok hsteady (.ofText name) Access.publicBit
    { u with api := if layout.access.isPublic then some ∅ else none }
  cases hclass.symm.trans hrefer
  have hgrown : filled.Grows namer u := hreferred.toGrows
  have hsound : filled.Sound namer := by
    intro other hother
    have hother : other ∈ s.references := hother
    rw [hempty] at hother
    simp at hother
  exact {
    access := rfl
    members := fun kind => by cases kind <;> rfl
    last := by
      rw [show v.last = u.last from hkept]
      exact hreferred.last.trans hlast
    isSome_api := by
      refine hgrows.isSome_api.trans ?_
      change (if layout.access.isPublic = true then some (∅ : PackageSet) else none).isSome = _
      split
      · rename_i hpublic
        rw [hpublic]
        rfl
      · rename_i hpublic
        rw [Bool.not_eq_true] at hpublic
        rw [hpublic]
        rfl
    utf8 := fun index text => (hgrows.utf8 index text).trans (hgrown.utf8 index text)
    sound := hgrows.sound (hgrown.sound hsound) }

/-- Everything after the header keeps what was collected, and puts the members on record. -/
theorem classBodyOf_ok {layout : Layout} {orphan : Bool} {record : Record} {s t : Decoder}
    (hheaded : s.Headed namer layout)
    (hrun : classBodyOf ⟨namer, none⟩ orphan layout.toRawBody s = .ok record t) :
    s.Grows namer t ∧ (∀ kind, t.Lists namer kind (layout.members kind)) ∧
      ∃ found, t.record = some found ∧ found.access = layout.access ∧
        record = { found with references := t.references, imports := t.imports, api := t.api } := by
  obtain ⟨_, t₁, t₂, t₃, t₄, t₅, t₆, -, hsuper, hinterfaces, hfields, hwalks, hmethods,
    hattributes, hfinish⟩ := classBodyOf_eq_ok_iff.1 hrun
  -- up to the interfaces there are no members
  have hsupers : s.Extends namer (fun _ => True) t₂ :=
    ((superclassAt_extending hsteady _ _).ok hsuper).trans
      ((interfacesOf_extending hsteady _ _).ok hinterfaces)
  have hnone (kind : LastMember) : t₂.Lists namer kind [] := by
    have hstart : s.Lists namer kind [] := ⟨by rw [hheaded.members]; rfl, nofun⟩
    refine hstart.of_extends hsupers ?_
    rw [hheaded.last]
    exact nofun
  have hfields : t₂.Adds namer .field layout.fields t₃ :=
    members_ok (fun _ _ _ => fieldOf_ok hsteady) hfields
  obtain ⟨hwalks, hkept⟩ : t₃.Grows namer t₄ ∧ t₄.record = t₃.record := by
    obtain ⟨walking, targets, rfl⟩ := prepareWalks_ok hwalks
    exact ⟨.of_eq rfl rfl rfl rfl, rfl⟩
  have hmembers (kind : LastMember) : t₄.members kind = t₃.members kind := by
    rw [Decoder.members, Decoder.members, hkept]
  have hmethods : t₄.Adds namer .method layout.methods t₅ :=
    members_ok (fun _ _ _ => methodOf_ok hsteady) hmethods
  have hturned : t₅.Grows namer { t₅ with last := none } := .of_eq rfl rfl rfl rfl
  have hclass : Decoder.Extends namer (fun _ => True) { t₅ with last := none } t₆ :=
    (attributesOf_ok hsteady (fun _ _ => Keeps.pure ()) (fun _ _ _ _ => trivial) hattributes).1
  have hend {kind : LastMember} {raws : List RawMember} (h : t₅.Lists namer kind raws) :
      t₆.Lists namer kind raws :=
    (h.of_members hturned rfl).of_extends hclass (Option.some_ne_none kind).symm
  have hgrows : s.Grows namer t₆ := hsupers.toGrows.trans <| hfields.toGrows.trans <|
    hwalks.trans <| hmethods.toGrows.trans <| hturned.trans hclass.toGrows
  have haccess : t₆.record.map Record.access = some layout.access :=
    calc t₆.record.map Record.access
      _ = t₅.record.map Record.access := hclass.access
      _ = t₃.record.map Record.access := by rw [hmethods.access, hkept]
      _ = s.record.map Record.access := by rw [hfields.access, hsupers.access]
      _ = some layout.access := hheaded.access
  obtain ⟨found, hfound, hsame⟩ := Option.map_eq_some_iff.1 haccess
  rw [finish_of_some hfound] at hfinish
  cases hfinish
  refine ⟨hgrows, fun kind => ?_, found, hfound, hsame, rfl⟩
  cases kind with
  | field =>
    refine hend (hmethods.others .field _ (by decide) ?_)
    exact (hfields.lists [] (hnone .field)).of_members hwalks (hmembers .field)
  | method =>
    refine hend (hmethods.lists [] ?_)
    have hothers := hfields.others .method [] (by decide) (hnone .method)
    exact hothers.of_members hwalks (hmembers .method)

/-- What is known after a class was decoded, from the start of the decoding to its end. -/
theorem classOf_ok {layout : Layout} {record : Record} {s t : Decoder}
    (hempty : s.references = ∅) (hlast : s.last = none)
    (hrun : classOf ⟨namer, none⟩ layout s = .ok record t) :
    (∀ kind, t.Lists namer kind (layout.members kind)) ∧ t.Sound namer ∧
      (∀ index text, t.pool.utf8 index = .ok text ↔ layout.constants.utf8 index = .ok text) ∧
      t.api.isSome = record.access.isPublic ∧ record.references = t.references ∧
      record.api = t.api ∧ ∀ kind, record.members kind = t.members kind := by
  obtain ⟨_, u, hheader, hbody⟩ := EStateM.ok_of_bind hrun
  have hheaded := classHeaderOf_ok hsteady hempty hlast hheader
  obtain ⟨hgrows, hlists, found, hfound, haccess, rfl⟩ := classBodyOf_ok hsteady hheaded hbody
  refine ⟨hlists, hgrows.sound hheaded.sound, fun index text => ?_, ?_, rfl, rfl, fun kind => ?_⟩
  · exact (hgrows.utf8 index text).trans (hheaded.utf8 index text)
  · rw [hgrows.isSome_api, hheaded.isSome_api, haccess]
  · rw [Decoder.members, hfound]
    cases kind <;> rfl

end Steady

end Decode

/-- Of all the classes that the descriptor or the stored signature of a member names, exactly
those are among the references that do not have the name of a primitive type and are not put
into the package of the primitive types. In a public class the packages of those that a
visible member names in its descriptor, or in a signature among its own attributes, are
exposed. -/
def Record.Covers (namer : Namer) (table : PackageTable) (layout : Layout) (record : Record) :
    Prop :=
  ∀ kind, (record.members kind).size = (layout.members kind).length ∧
    ∀ (i : Nat) (raw : RawMember) (member : Member), (layout.members kind)[i]? = some raw →
      (record.members kind)[i]? = some member →
      ∀ text, text = member.descriptor ∨ member.signature = some text →
      ∀ name ∈ (Signature.scan text).names,
        let type := (TypeName.ofText name).referent
        let package := (namer.packageOf type table).1
        (type ∈ record.references ↔ type.isPrimitive = false ∧ package.primitive = false) ∧
        (type ∈ record.references → record.access.isPublic = true →
          member.access.isVisible = true →
          text = member.descriptor ∨ raw.Signs layout.constants text →
          package ∈ record.apiUses)

/-- **Every class that a member names is referred to**, unless it passes for a primitive type. -/
theorem Session.decode_references {options : Options} (hsteady : options.namer.Steady)
    {bytes : Bytes} {session after : Session} {record : Record}
    (h : session.decode options bytes = (.ok record, after)) :
    ∃ layout trailing, Layout.form.Fits layout ∧
      bytes = Layout.form.encode layout ++ trailing ∧
      record.Covers options.namer after.table layout := by
  obtain ⟨layout, trailing, hfits, hbytes, s, hrun, rfl⟩ := decode_eq_ok_iff.1 h
  obtain ⟨hlists, hsound, hutf8, hapi, hreferences, hrecord, hmembers⟩ :=
    Decode.classOf_ok hsteady rfl rfl hrun
  refine ⟨layout, trailing, hfits, hbytes, fun kind => ?_⟩
  rw [hmembers]
  refine ⟨(hlists kind).size, ?_⟩
  intro i raw member hraw hmember text htext name hname type package
  have htells := (hlists kind).tells i raw member hraw hmember
  have hheard : s.Heard options.namer 0 text := by
    rcases htext with rfl | htext
    · exact htells.heard_descriptor.hidden
    · exact htells.heard_signature text htext
  -- a package that was handed out during the decoding is still the one that is handed out
  have hpackage {found : Package} (hsettled : options.namer.Settled s.session.table type found) :
      package = found := hsettled _ (.refl _)
  rw [hreferences]
  refine ⟨⟨fun hmem => ?_, fun ⟨htype, hordinary⟩ => ?_⟩, fun hmem hpublic hvisible hown => ?_⟩
  · obtain ⟨htype, found, hsettled, hordinary⟩ := hsound type hmem
    exact ⟨htype, by rw [hpackage hsettled, hordinary]⟩
  · rcases hheard name hname with hprimitive | ⟨found, hsettled, hprimitive | ⟨hmem, -⟩⟩
    · rw [show type.isPrimitive = true from hprimitive] at htype
      cases htype
    · rw [hpackage hsettled, hprimitive] at hordinary
      cases hordinary
    · exact hmem
  · have hheard : s.Heard options.namer raw.access text := by
      rcases hown with rfl | hown
      · exact htells.heard_descriptor
      · refine htells.heard_own text ?_
        simpa only [RawMember.Signs, RawAttribute.Signs, hutf8] using hown
    obtain ⟨htype, found, hsettled, hordinary⟩ := hsound type hmem
    rcases hheard name hname with hprimitive | ⟨other, hother, hprimitive | ⟨-, hexposed⟩⟩
    · rw [show type.isPrimitive = true from hprimitive] at htype
      cases htype
    · rw [← hpackage hsettled, hpackage hother, hprimitive] at hordinary
      cases hordinary
    · obtain ⟨api, hsome⟩ := Option.isSome_iff_exists.1 (hapi.trans hpublic)
      rw [hpackage hother, Record.apiUses, hrecord, hsome]
      exact hexposed (htells.access ▸ hvisible) api hsome

/-- A public class `A` with a public field of the class `a/B`, which is referred to, and whose
package is exposed since both can be seen. -/
theorem Session.decode_references_of_field :
    let file : Bytes := [0xCA, 0xFE, 0xBA, 0xBE, 0, 0, 0, 52, 0, 5, 1, 0, 1, 65, 7, 0, 1,
      1, 0, 1, 102, 1, 0, 5, 76, 97, 47, 66, 59, 0, 0x21, 0, 2, 0, 0, 0, 0,
      0, 1, 0, 1, 0, 3, 0, 4, 0, 0, 0, 0, 0, 0]
    ∃ record after, Session.decode {} file {} = (.ok record, after) ∧
      ∃ layout trailing, Layout.form.Fits layout ∧
        file = Layout.form.encode layout ++ trailing ∧
        record.Covers .shared after.table layout := by
  intro file
  have hok : (Session.decode {} file {}).1.isOk = true := by decide +kernel
  obtain ⟨record, after, hrun⟩ := Session.decode_of_isOk hok
  exact ⟨record, after, hrun,
    @Session.decode_references {} Namer.shared_steady file {} after record hrun⟩

/-- A public class `A` with a public field of a class `I`, which has the name of a primitive
type: the field names the class, and it is not referred to. -/
theorem Session.decode_references_of_primitive_name :
    let file : Bytes := [0xCA, 0xFE, 0xBA, 0xBE, 0, 0, 0, 52, 0, 5, 1, 0, 1, 65, 7, 0, 1,
      1, 0, 1, 102, 1, 0, 3, 76, 73, 59, 0, 0x21, 0, 2, 0, 0, 0, 0,
      0, 1, 0, 1, 0, 3, 0, 4, 0, 0, 0, 0, 0, 0]
    ((Session.decode {} file {}).1.map fun record =>
      (record.fields.map Member.descriptor, record.fields.map fun field =>
        (Signature.scan field.descriptor).names.map fun name =>
          decide ((TypeName.ofText name).referent ∈ record.references))).toOption =
      some (#["LI;"], #[[false]]) := by
  decide +kernel

end ClassFile
