import ClassFile.Proofs.Walks

/-!
# Attributes that are passed over

An attribute of a name that is not known is passed over, and so is a method body where no bodies are
walked through. What is in it does not matter, and neither does whether it is there
(`ClassFile.Session.decode_strips`): two class files that are the same when such attributes are left
out (`ClassFile.Layout.Strips`) are decoded to the same record, or neither is decoded.

That goes both ways, so the decodings are compared by steps that succeed alike
(`ClassFile.Decode.Agrees`). They go through the same states, and it matters which: a method body is
passed over as long as the decoder keeps to the layout in whether it walks
(`ClassFile.Decoder.Heeds`).
-/

namespace ClassFile

/-! ### Files without such attributes -/

/-- The attribute is passed over: its name is not known, or it is a method body and bodies are not
walked through where it stands. -/
def RawAttribute.Skipped (pool : Pool) (walked : Prop) (raw : RawAttribute) : Prop :=
  ∃ name, pool.utf8 raw.name = .ok name ∧
    (AttributeKind.ofName name = .other ∨ AttributeKind.ofName name = .code ∧ ¬walked)

/-- A table of attributes without some that are passed over. Those in a method body are left out as
well, and method bodies inside of others are never walked through. -/
abbrev RawAttribute.TableStrips (pool : Pool) (walked : Prop) :
    List RawAttribute → List RawAttribute → Prop :=
  ClassFile.Sheds (RawAttribute.Skipped pool walked)
    (RawAttribute.Loses pool (RawAttribute.Skipped pool False))

/-- A member without some attributes that are passed over. -/
def RawMember.Strips (pool : Pool) (walked : Prop) (raw bare : RawMember) : Prop :=
  ∃ attributes, RawAttribute.TableStrips pool walked raw.attributes attributes ∧
    bare = { raw with attributes }

/-- A class without some attributes that are passed over. Only bodies of methods may be walked
through. -/
structure Layout.Strips (layout bare : Layout) : Prop where
  header : bare.toRawHeader = layout.toRawHeader
  superclass : bare.superclass = layout.superclass
  interfaces : bare.interfaces = layout.interfaces
  fields : List.Forall₂ (RawMember.Strips layout.constants False) layout.fields bare.fields
  methods : List.Forall₂ (RawMember.Strips layout.constants layout.Walks)
    layout.methods bare.methods
  attributes : RawAttribute.TableStrips layout.constants False layout.attributes bare.attributes

/-- What is left fits as well: leaving out attributes makes tables shorter, and bodies too. -/
theorem Layout.Strips.fits {layout bare : Layout} (h : layout.Strips bare)
    (hfits : Layout.form.Fits layout) : Layout.form.Fits bare := by
  obtain ⟨hheader, hinterfaces, hfields, hmethods, hattributes⟩ := hfits
  have hmembers {walked : Prop} {raws raws' : List RawMember}
      (hstrips : List.Forall₂ (RawMember.Strips layout.constants walked) raws raws')
      (hfits : RawMember.form.table.Fits raws) : RawMember.form.table.Fits raws' := by
    refine @Sheds.table_fits _ RawMember.form (fun _ => False) _ _ _ ?_ (.of_forall₂ hstrips) hfits
    rintro raw _ ⟨attributes, hsheds, rfl⟩ hfits
    exact hsheds.table_fits (fun _ _ h => h.fits) hfits
  exact ⟨h.header ▸ hheader, h.interfaces ▸ hinterfaces, hmembers h.fields hfields,
    hmembers h.methods hmethods, h.attributes.table_fits (fun _ _ h => h.fits) hattributes⟩

namespace Decode

open Decoder

/-! ### Steps that succeed alike -/

/-- From states of which `I` holds the one step succeeds if the other one does, with the same value
and in the same state, and of this `I` holds again. -/
structure Agrees (I : Decoder → Prop) {α : Type} (m m' : Decode α) : Prop where
  forth : Follows Eq (fun s t => s = t ∧ I s) m m'
  back : Follows Eq (fun s t => s = t ∧ I s) m' m

namespace Agrees

variable {I : Decoder → Prop} {α β : Type}

/-- Every step agrees with itself, if it leads to states of which `I` holds. It need not succeed. -/
theorem same {m : Decode α} (hm : Leads I (fun _ => I) m) : Agrees I m m := by
  have hsame : Follows Eq (fun s t => s = t ∧ I s) m m := by
    rintro s _ value s' ⟨rfl, hs⟩ hrun
    exact ⟨value, s', hrun, rfl, rfl, hm _ _ _ hs hrun⟩
  exact ⟨hsame, hsame⟩

/-- Two steps in a row agree if each of them does, whatever the first one comes to. -/
theorem bind {m m' : Decode α} {f f' : α → Decode β} (hm : Agrees I m m')
    (hf : ∀ a, Agrees I (f a) (f' a)) : Agrees I (m >>= f) (m' >>= f') :=
  ⟨hm.forth.bind fun a => (hf a).forth, hm.back.bind fun a => (hf a).back⟩

/-- After the same step it is known what that came to, and that can be used for what comes next. -/
theorem after {m : Decode α} {f f' : α → Decode β} (hm : Leads I (fun _ => I) m)
    (hf : ∀ s a t, I s → m s = .ok a t → Agrees I (f a) (f' a)) :
    Agrees I (m >>= f) (m >>= f') := by
  have hafter {f f' : α → Decode β} (hf : ∀ s a t, I s → m s = .ok a t →
      Follows Eq (fun s t => s = t ∧ I s) (f a) (f' a)) :
      Follows Eq (fun s t => s = t ∧ I s) (m >>= f) (m >>= f') := by
    rintro s _ value s' ⟨rfl, hs⟩ hrun
    obtain ⟨a, u, hfirst, hrest⟩ := EStateM.ok_of_bind hrun
    obtain ⟨value', t', hrest', hvalue, hst⟩ :=
      hf s a u hs hfirst ⟨rfl, hm _ _ _ hs hfirst⟩ hrest
    exact ⟨value', t', EStateM.bind_eq hfirst hrest', hvalue, hst⟩
  exact ⟨hafter fun s a t hs hrun => (hf s a t hs hrun).forth,
    hafter fun s a t hs hrun => (hf s a t hs hrun).back⟩

/-- It only matters what the steps do to states of which `I` holds, so on these they may be replaced
by others. -/
theorem congr {m m' n n' : Decode α} (h : Agrees I n n') (hm : ∀ s, I s → m s = n s)
    (hm' : ∀ s, I s → m' s = n' s) : Agrees I m m' := by
  constructor
  · rintro s _ value s' ⟨rfl, hs⟩ hrun
    rw [hm' s hs]
    exact h.forth ⟨rfl, hs⟩ (hm s hs ▸ hrun)
  · rintro s _ value s' ⟨rfl, hs⟩ hrun
    rw [hm s hs]
    exact h.back ⟨rfl, hs⟩ (hm' s hs ▸ hrun)

/-- Elements that are dropped must be as good as nothing, and the others must agree with what they
become. Then so do the two lists. -/
theorem forM {ρ : Type} {Drops : ρ → Prop} {Becomes : ρ → ρ → Prop} {f : ρ → Decode Unit}
    {raws raws' : List ρ} (h : Sheds Drops Becomes raws raws')
    (hdrop : ∀ raw, Drops raw → Agrees I (f raw) (pure ()))
    (hkeep : ∀ raw ∈ raws, ∀ raw', Becomes raw raw' → Agrees I (f raw) (f raw')) :
    Agrees I (raws.forM f) (raws'.forM f) := by
  induction h with
  | nil => exact same (.pure fun _ hs => hs)
  | @drop raw raws raws' hraw _ ih =>
    have hrest := ih fun other hother => hkeep other (List.mem_cons_of_mem raw hother)
    exact @bind _ _ _ _ _ (fun _ => raws.forM f) (fun _ => raws'.forM f) (hdrop raw hraw)
      fun _ => hrest
  | @keep raw raw' raws raws' hraw _ ih =>
    have hrest := ih fun other hother => hkeep other (List.mem_cons_of_mem raw hother)
    exact bind (hkeep raw List.mem_cons_self raw' hraw) fun _ => hrest

end Agrees

/-! ### Attributes -/

section Layouts

variable {namer : Namer} {layout : Layout}

/-- What is done with method bodies. -/
abbrev bodies (namer : Namer) (walking : Bool) : Decode Unit :=
  if walking then code ⟨namer, none⟩ else pure ()

/-- The methods of a decoder with the constants of a layout are those of the layout, so that they
keep both the constants and the bodies that are walked through. -/
theorem heeding_bodies (walking : Bool) : Heeding layout (bodies namer walking) := by
  cases walking with
  | false => exact .pure ()
  | true => exact .code

/-- A method body that is passed over changes nothing: it is one of an unknown name, or the decoder
does not walk. -/
theorem attributeOf_skipped {walked : Prop} {walking : Bool} (hwalking : walking = true → walked)
    {raw : RawAttribute} (hraw : raw.Skipped layout.constants walked)
    (site : Site) (access : Access)
    {s : Decoder} (hs : s.Heeds layout) :
    attributeOf ⟨namer, none⟩ (bodies namer walking) site access raw s = .ok () s := by
  obtain ⟨name, hname, hkind⟩ := hraw
  have hhere := (Pool.Question.utf8 raw.name).ok_of_like hs.pool.symm hname
  refine EStateM.bind_eq (utf8_of_ok hhere) ?_
  rcases hkind with hother | ⟨hcode, hwalked⟩
  · rw [hother]
    rfl
  · cases walking with
    | true => exact absurd (hwalking rfl) hwalked
    | false =>
      rw [hcode]
      rfl

/-- What is done with a method body that is not passed over is done with its bytes. -/
theorem attributeOf_code {onCode : Decode Unit} {name : UInt16}
    (hname : layout.constants.utf8 name = .ok "Code") (body : Bytes) (site : Site) (access : Access)
    {s : Decoder} (hs : s.Heeds layout) :
    attributeOf ⟨namer, none⟩ onCode site access ⟨name, body⟩ s = within body onCode s := by
  have hhere := (Pool.Question.utf8 name).ok_of_like hs.pool.symm hname
  exact EStateM.bind_of_ok (utf8_of_ok hhere)

/-- A table of attributes without some that are passed over, given what becomes of method bodies
that are walked through. -/
theorem attributesOf_agrees {walked : Prop} {walking : Bool} (hwalking : walking = true → walked)
    (hcode : walking = true → ∀ body body', RawAttribute.Loses layout.constants
        (RawAttribute.Skipped layout.constants False) body body' →
      Agrees (Heeds layout) (within body.body (code ⟨namer, none⟩))
        (within body'.body (code ⟨namer, none⟩)))
    {raws bare : List RawAttribute}
    (h : RawAttribute.TableStrips layout.constants walked raws bare)
    (site : Site) (access : Access) :
    Agrees (Heeds layout) (attributesOf ⟨namer, none⟩ (bodies namer walking) site access raws)
      (attributesOf ⟨namer, none⟩ (bodies namer walking) site access bare) := by
  have hnothing : Agrees (Heeds layout) (pure ()) (pure ()) := .same (.pure fun _ hs => hs)
  refine .forM h (fun raw hraw => ?_) fun raw _ raw' hloses => ?_
  · exact hnothing.congr (fun s hs => attributeOf_skipped hwalking hraw site access hs)
      fun _ _ => rfl
  · cases hloses with
    | same => exact .same (Heeding.attributeOf (heeding_bodies walking) site access raw).leads
    | @inside name code attributes rest hname hfits hsheds =>
      cases walking with
      | true =>
        exact (hcode rfl _ _ (.inside hname hfits hsheds)).congr
          (fun s hs => attributeOf_code hname _ site access hs)
          fun s hs => attributeOf_code hname _ site access hs
      | false =>
        have hskipped (body : Bytes) :
            RawAttribute.Skipped layout.constants False ⟨name, body⟩ :=
          ⟨"Code", hname, .inr ⟨rfl, not_false⟩⟩
        exact hnothing.congr
          (fun s hs => attributeOf_skipped Bool.false_ne_true (hskipped _) site access hs)
          fun s hs => attributeOf_skipped Bool.false_ne_true (hskipped _) site access hs

/-- Where bodies are not walked through it does not matter what is in them, so there only the names
of the attributes decide. -/
theorem attributesOf_agrees_outside {raws bare : List RawAttribute}
    (h : RawAttribute.TableStrips layout.constants False raws bare) (site : Site)
    (access : Access) :
    Agrees (Heeds layout) (attributesOf ⟨namer, none⟩ (pure ()) site access raws)
      (attributesOf ⟨namer, none⟩ (pure ()) site access bare) :=
  @attributesOf_agrees namer layout False false Bool.false_ne_true
    (fun h => absurd h Bool.false_ne_true) raws bare h site access

/-- A method body without attributes that are passed over agrees with the body that has them.
Attributes in it belong to the method, and bodies in bodies are not walked through. -/
theorem within_code_agrees {raw bare : RawAttribute} (h : RawAttribute.Loses layout.constants
      (RawAttribute.Skipped layout.constants False) raw bare) :
    Agrees (Heeds layout) (within raw.body (code ⟨namer, none⟩))
      (within bare.body (code ⟨namer, none⟩)) := by
  cases h with
  | same => exact .same (Heeding.within .code).leads
  | @inside _ code attributes rest _ hfits hsheds =>
    have htable : RawAttribute.TableStrips layout.constants False code.attributes attributes :=
      hsheds.mono fun _ _ hsame => hsame ▸ .same _
    have hcode : Agrees (Heeds layout) (codeOf ⟨namer, none⟩ code)
        (codeOf ⟨namer, none⟩ { code with attributes }) := by
      refine .after .get fun _ s _ _ _ => ?_
      refine .after (Heeding.lockstep.walk s.targets code.code).leads fun _ _ _ _ _ => ?_
      refine .after (Leads.forM fun handler _ => ((Heeds.lasting layout).constant handler.2).leads)
        fun _ _ _ _ _ => ?_
      exact attributesOf_agrees_outside htable .method 0
    exact ⟨.within (.code _) .code hfits (RawCode.fits_of_sheds hsheds hfits) hcode.forth rest,
      .within (.code _) .code (RawCode.fits_of_sheds hsheds hfits) hfits hcode.back rest⟩

/-! ### Members and classes -/

/-- What is said of a member without attributes that are passed over, and it is settled in front of
the methods whether bodies are walked through. -/
theorem afterOpening_agrees {kind : LastMember} {walked : Prop}
    (hwalked : kind = .method → layout.Walks → walked) (header : MemberHeader)
    {raws bare : List RawAttribute}
    (h : RawAttribute.TableStrips layout.constants walked raws bare) :
    Agrees (Heeds layout) (afterOpening ⟨namer, none⟩ kind header raws)
      (afterOpening ⟨namer, none⟩ kind header bare) := by
  cases kind with
  | field =>
    exact @attributesOf_agrees namer layout walked false (fun h => absurd h Bool.false_ne_true)
      (fun h => absurd h Bool.false_ne_true) raws bare h .field header.access
  | method =>
    refine .after .get fun _ s t hs hget => ?_
    cases hget
    exact attributesOf_agrees (fun hwalking => hwalked rfl (hs.walking hwalking))
      (fun _ _ _ => within_code_agrees) h _ _

/-- A member without attributes that are passed over agrees with the member that has them: it is
opened alike, and has the same attributes in the end. -/
theorem memberOf_agrees {kind : LastMember} {walked : Prop}
    (hwalked : kind = .method → layout.Walks → walked) {raw bare : RawMember}
    (hraw : raw ∈ layout.members kind) (h : raw.Strips layout.constants walked bare) :
    Agrees (Heeds layout) (memberOf ⟨namer, none⟩ kind raw) (memberOf ⟨namer, none⟩ kind bare) := by
  obtain ⟨attributes, hstrips, rfl⟩ := h
  rw [memberOf_eq, memberOf_eq]
  refine .after ((Lasting.asking _).memberHeaderOf raw).leads fun s header _ hs hheader => ?_
  have hopen : Heeding layout (openMember ⟨namer, none⟩ kind header) :=
    .openMember (Heeding.walks_of_literal hraw hs hheader)
  exact .after hopen.leads fun _ _ _ _ _ => afterOpening_agrees hwalked header hstrips

/-- So do the members of a kind, one by one. -/
theorem membersOf_agrees {kind : LastMember} {walked : Prop}
    (hwalked : kind = .method → layout.Walks → walked) {bare : List RawMember}
    (h : List.Forall₂ (RawMember.Strips layout.constants walked) (layout.members kind) bare) :
    Agrees (Heeds layout) ((layout.members kind).forM (memberOf ⟨namer, none⟩ kind))
      (bare.forM (memberOf ⟨namer, none⟩ kind)) := by
  have hsheds : Sheds (fun _ => False) (RawMember.Strips layout.constants walked)
      (layout.members kind) bare := .of_forall₂ h
  exact .forM hsheds (fun _ hdrop => hdrop.elim) fun raw hraw _ => memberOf_agrees hwalked hraw

/-- All that follows the name of the class: supertypes, fields, methods, and the attributes of the
class. -/
theorem classBodyOf_agrees {bare : Layout} (h : layout.Strips bare) {orphan : Bool}
    (horphan : orphan = true → layout.Walks) :
    Agrees (Heeds layout) (classBodyOf ⟨namer, none⟩ orphan layout.toRawBody)
      (classBodyOf ⟨namer, none⟩ orphan bare.toRawBody) := by
  have hfields := @membersOf_agrees namer layout .field False (by simp) _ h.fields
  have hmethods := @membersOf_agrees namer layout .method layout.Walks (fun _ h => h) _ h.methods
  rw [classBodyOf, classBodyOf, h.superclass, h.interfaces]
  refine .after Leads.record fun _ found _ _ _ => ?_
  refine .after (Heeding.heading.superclassAt found.access _).leads fun _ _ _ _ _ => ?_
  refine .after (Heeding.heading.interfacesOf found.access _).leads fun _ _ _ _ _ => ?_
  refine .bind hfields fun _ => ?_
  refine .after (Heeding.prepareWalks horphan).leads fun _ _ _ _ _ => ?_
  refine .bind hmethods fun _ => ?_
  refine .after (Heeding.heading.announce rfl).leads fun _ _ _ _ _ => ?_
  refine .after (.modify fun _ hs => ⟨hs.pool, hs.major, hs.walking⟩) fun _ _ _ _ _ => ?_
  refine .bind (attributesOf_agrees_outside h.attributes .type found.access) fun _ => ?_
  refine .same fun s record t hs hrun => ?_
  obtain ⟨rfl, -⟩ := ok_of_finish hrun
  exact hs

end Layouts

/-- A class without attributes that are passed over is decoded alike, from decoders that have not
begun. The pool and the header are the same in both. -/
theorem classOf_strips {namer : Namer} {layout bare : Layout} (h : layout.Strips bare)
    {s t : Decoder} {record : Record} (hrecord : s.record = none) (hwalking : s.walking = false) :
    classOf ⟨namer, none⟩ layout s = .ok record t ↔
      classOf ⟨namer, none⟩ bare s = .ok record t := by
  rw [classOf, classOf, h.header]
  constructor
  · intro hrun
    obtain ⟨⟨header, orphan⟩, u, hheader, hbody⟩ := EStateM.ok_of_bind hrun
    obtain ⟨hheeds, horphan⟩ := heeds_of_classHeaderOf hrecord hwalking hheader
    obtain ⟨_, _, hbody', rfl, rfl, -⟩ := (classBodyOf_agrees h horphan).forth ⟨rfl, hheeds⟩ hbody
    exact EStateM.bind_eq hheader hbody'
  · intro hrun
    obtain ⟨⟨header, orphan⟩, u, hheader, hbody⟩ := EStateM.ok_of_bind hrun
    obtain ⟨hheeds, horphan⟩ := heeds_of_classHeaderOf hrecord hwalking hheader
    obtain ⟨_, _, hbody', rfl, rfl, -⟩ := (classBodyOf_agrees h horphan).back ⟨rfl, hheeds⟩ hbody
    exact EStateM.bind_eq hheader hbody'

end Decode

/-- **Attributes that are passed over are opaque**: two class files that are the same once such
attributes are left out, whatever there is in them and wherever they stand, are decoded to the same
record if one of them is decoded. -/
theorem Session.decode_strips {options : Options} {layout other bare : Layout}
    (hfits : Layout.form.Fits layout) (hother : Layout.form.Fits other) (h : layout.Strips bare)
    (h' : other.Strips bare) (trailing : Bytes) (session after : Session) (record : Record) :
    session.decode options (Layout.form.encode layout ++ trailing) = (.ok record, after) ↔
      session.decode options (Layout.form.encode other ++ trailing) = (.ok record, after) := by
  have hstart : (session.decoder options none []).walking = false := Bool.and_false _
  rw [decode_encode_iff hfits, decode_encode_iff hother]
  refine exists_congr fun s => and_congr_left fun _ => ?_
  rw [Decode.classOf_strips h rfl hstart, Decode.classOf_strips h' rfl hstart]

/-- A method body that loads the class `p.B` by name, with some attributes. -/
def loadingBody (attributes : List RawAttribute) : RawCode where
  maxStack := 1
  maxLocals := 1
  code := [18, 14, 184, 0, 12, 177]
  handlers := []
  attributes := attributes

/-- A class `A` of the last version without class literals, with that body and with attributes of
its own. The name at index 16 is not known. -/
def extended (inner own : List RawAttribute) : Layout where
  minor := 0
  major := 48
  pool := [0, 17, 1, 0, 1, 65, 7, 0, 1, 1, 0, 1, 109, 1, 0, 3, 40, 41, 86, 12, 0, 3, 0, 4, 10, 0, 2,
    0, 5, 1, 0, 15, 106, 97, 118, 97, 47, 108, 97, 110, 103, 47, 67, 108, 97, 115, 115, 7, 0, 7, 1,
    0, 7, 102, 111, 114, 78, 97, 109, 101, 1, 0, 37, 40, 76, 106, 97, 118, 97, 47, 108, 97, 110,
    103, 47, 83, 116, 114, 105, 110, 103, 59, 41, 76, 106, 97, 118, 97, 47, 108, 97, 110, 103, 47,
    67, 108, 97, 115, 115, 59, 12, 0, 9, 0, 10, 10, 0, 8, 0, 11, 1, 0, 3, 112, 46, 66, 8, 0, 13, 1,
    0, 4, 67, 111, 100, 101, 1, 0, 5, 69, 120, 116, 114, 97]
  access := 0x21
  name := 2
  superclass := 0
  interfaces := []
  fields := []
  methods := [⟨1, 3, 4, [⟨15, RawCode.form.encode (loadingBody inner)⟩]⟩]
  attributes := own

/-- The names at these two indices: of a method body, and of an attribute that nobody knows. -/
theorem extended_names (inner own : List RawAttribute) :
    (extended inner own).constants.utf8 15 = .ok "Code" ∧
      (extended inner own).constants.utf8 16 = .ok "Extra" := by
  have h : (extended [] []).constants.utf8 15 = .ok "Code" ∧
      (extended [] []).constants.utf8 16 = .ok "Extra" := by
    decide +kernel
  exact h

/-- Attributes of the unknown name may be left out, in a body as well as outside. -/
theorem extended_strips {inner own : List RawAttribute} (hinner : ∀ raw ∈ inner, raw.name = 16)
    (hown : ∀ raw ∈ own, raw.name = 16) (hfits : RawCode.form.Fits (loadingBody inner)) :
    (extended inner own).Strips (extended [] []) := by
  obtain ⟨hcode, hextra⟩ := extended_names inner own
  have hskipped (walked : Prop) (raw : RawAttribute) (hname : raw.name = 16) :
      raw.Skipped (extended inner own).constants walked :=
    ⟨"Extra", hname ▸ hextra, .inl rfl⟩
  have hdrop (walked : Prop) {Becomes : RawAttribute → RawAttribute → Prop}
      {raws : List RawAttribute} (hraws : ∀ raw ∈ raws, raw.name = 16) :
      Sheds (RawAttribute.Skipped (extended inner own).constants walked) Becomes raws [] := by
    induction raws with
    | nil => exact .nil
    | cons raw raws ih =>
      obtain ⟨hraw, hrest⟩ := List.forall_mem_cons.1 hraws
      exact .drop (hskipped walked raw hraw) (ih hrest)
  have hbody := @RawAttribute.Loses.inside _ _ 15 _ [] [] hcode hfits (hdrop False hinner)
  rw [List.append_nil, List.append_nil] at hbody
  exact {
    header := rfl
    superclass := rfl
    interfaces := rfl
    fields := .nil
    methods := .cons ⟨_, .keep hbody .nil, rfl⟩ .nil
    attributes := hdrop False hown }

/-- An attribute of the unknown name in the body, and one of the class: the class decodes as it does
without them. -/
theorem Session.decode_strips_of_extended :
    let layout := extended [⟨16, [7, 7]⟩] [⟨16, [1]⟩]
    let other := extended [⟨16, []⟩] []
    Layout.form.Fits layout ∧ Layout.form.Fits other ∧ layout.Strips (extended [] []) ∧
      other.Strips (extended [] []) ∧
      (Session.decode {} (Layout.form.encode layout) {}).1.isOk = true ∧
      ∀ (trailing : Bytes) (session after : Session) (record : Record),
        session.decode {} (Layout.form.encode layout ++ trailing) = (.ok record, after) ↔
          session.decode {} (Layout.form.encode other ++ trailing) = (.ok record, after) := by
  intro layout other
  have hname (body : Bytes) : ∀ raw ∈ [(⟨16, body⟩ : RawAttribute)], raw.name = 16 :=
    List.forall_mem_singleton.2 rfl
  have hlayout : Layout.form.Fits layout := by decide +kernel
  have hother : Layout.form.Fits other := by decide +kernel
  have hstrips : layout.Strips (extended [] []) := extended_strips (hname _) (hname _) (by decide)
  have hstrips' : other.Strips (extended [] []) :=
    extended_strips (hname _) (List.forall_mem_nil _) (by decide)
  refine ⟨hlayout, hother, hstrips, hstrips', by decide +kernel,
    fun trailing session after record => ?_⟩
  exact @Session.decode_strips {} _ _ _ hlayout hother hstrips hstrips' trailing
    session after record

end ClassFile
