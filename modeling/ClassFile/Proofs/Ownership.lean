import ClassFile.Proofs.SameMember
import Mathlib.Data.List.Forall2

/-!
# A record says what the layout says

A class file that is written from a layout and accepted is read to the end of the layout, and
the record has what the layout has, in its order (`ClassFile.Record.Presents`). What the
attributes of a member tell goes to that member, and nothing else goes there: each member of the
record is what comes of it when it is read by itself, with the pool and with the decision
whether method bodies are walked through, on a decoder that knows of no other member
(`ClassFile.RawMember.alone`, `ClassFile.Record.Owns`).

That is shown with two decodings side by side, one of the class and one of the member alone, which
read the member alongside each other (`ClassFile.Decoder.Alongside`).
-/

/-- Two lists that are related to a third are related to each other. -/
theorem List.Forall₂.of_both {α β γ : Type} {R : α → β → Prop} {S : α → γ → Prop}
    {T : β → γ → Prop} {xs : List α} {ys : List β} {zs : List γ} (hys : Forall₂ R xs ys)
    (hT : ∀ {x y z}, R x y → S x z → T y z) (hzs : Forall₂ S xs zs) : Forall₂ T ys zs := by
  induction hys generalizing zs with
  | nil =>
    cases hzs
    exact .nil
  | cons hy _ ih =>
    cases hzs with
    | cons hz hzs => exact .cons (hT hy hz) (ih hzs)

namespace ClassFile

/-! ### A member by itself -/

/-- A decoder of a class of which nothing is known but the pool, and whether method bodies are
walked through. -/
def Decoder.blank (pool : Pool) (walking : Bool) : Decoder where
  input := .ofBytes []
  pool := pool
  session := {}
  record := some (.header ⟨""⟩ 0 0 0)
  walking := walking

namespace RawMember

/-- What comes of a member that is read by itself. -/
def alone (kind : LastMember) (pool : Pool) (walking : Bool) (raw : RawMember) : Option Member :=
  match Decode.memberOf ⟨.exact, none⟩ kind raw (.blank pool walking) with
  | .ok _ t => (t.members kind).back?
  | .error _ _ => none

/-- The member has the flags, the name and the descriptor that the layout gives it. -/
structure Presents (pool : Pool) (raw : RawMember) (member : Member) : Prop where
  access : member.access = raw.access
  name : pool.utf8 raw.name = .ok member.name
  descriptor : pool.utf8 raw.descriptor = .ok member.descriptor

theorem Presents.of_header {raw : RawMember} {header : Decode.MemberHeader} {pool : Pool}
    {member : Member} (h : member.header = (header.access, header.name, header.descriptor))
    (haccess : header.access = raw.access) (hname : pool.utf8 raw.name = .ok header.name)
    (hdescriptor : pool.utf8 raw.descriptor = .ok header.descriptor) :
    raw.Presents pool member := by
  obtain ⟨hsame, hrest⟩ := Prod.mk.inj h
  obtain ⟨hsame', hsame''⟩ := Prod.mk.inj hrest
  exact ⟨hsame.trans haccess, hsame' ▸ hname, hsame'' ▸ hdescriptor⟩

end RawMember

namespace Decoder

/-- Members that were read by themselves join those on record, and nothing else changes. -/
structure Gains (pool : Pool) (walking : Bool) (kind : LastMember) (raws : List RawMember)
    (s t : Decoder) : Prop where
  like : t.pool.Like pool
  headline : t.record.map Record.headline = s.record.map Record.headline
  members : ∃ added : List Member, t.members kind = s.members kind ++ added.toArray ∧
    List.Forall₂ (fun raw member => raw.Presents pool member ∧
      raw.alone kind pool walking = some member) raws added
  others (other : LastMember) : other ≠ kind → t.members other = s.members other
  walking : kind = .method → t.walking = s.walking

namespace Gains

variable {pool : Pool} {walking : Bool} {kind : LastMember} {s t u : Decoder}

theorem nil (hlike : s.pool.Like pool) : s.Gains pool walking kind [] s where
  like := hlike
  headline := rfl
  members := ⟨[], (Array.append_empty).symm, .nil⟩
  others _ _ := rfl
  walking _ := rfl

theorem append {raws further : List RawMember} (h : s.Gains pool walking kind raws t)
    (h' : t.Gains pool walking kind further u) : s.Gains pool walking kind (raws ++ further) u where
  like := h'.like
  headline := h'.headline.trans h.headline
  members := by
    obtain ⟨added, hadded, hraws⟩ := h.members
    obtain ⟨more, hmore, hfurther⟩ := h'.members
    refine ⟨added ++ more, ?_, List.rel_append hraws hfurther⟩
    simp [hmore, hadded]
  others other hother := (h'.others other hother).trans (h.others other hother)
  walking hkind := (h'.walking hkind).trans (h.walking hkind)

/-- If there were no members before, the members are those that were read. -/
theorem all_members {raws : List RawMember} (h : s.Gains pool walking kind raws t)
    (hnone : s.members kind = #[]) :
    List.Forall₂ (fun raw member => raw.Presents pool member ∧
      raw.alone kind pool walking = some member) raws (t.members kind).toList := by
  obtain ⟨added, hadded, hraws⟩ := h.members
  rwa [hadded, hnone, Array.empty_append]

theorem isSome_record {raws : List RawMember} (h : s.Gains pool walking kind raws t)
    (hrecord : s.record.isSome = true) : t.record.isSome = true := by
  have hsome := congrArg Option.isSome h.headline
  rwa [Option.isSome_map, Option.isSome_map, hrecord] at hsome

end Gains

end Decoder

namespace Decode

variable {namer : Namer}

theorem memberHeaderOf_of_ok {raw : RawMember} {header : MemberHeader} {s : Decoder}
    (haccess : header.access = raw.access) (hindex : header.descriptorIndex = raw.descriptor)
    (hname : s.pool.utf8 raw.name = .ok header.name)
    (hdescriptor : s.pool.utf8 raw.descriptor = .ok header.descriptor) :
    memberHeaderOf raw s = .ok header s := by
  refine EStateM.bind_eq (utf8_of_ok hname) (EStateM.bind_eq (utf8_of_ok hdescriptor) ?_)
  rw [← haccess, ← hindex]
  rfl

/-- A member that was opened is made of its header. That its descriptor was checked against the pool
adds nothing to it. -/
theorem member_of_opening {header : MemberHeader} {kind : LastMember} {pool : Pool}
    {member : Member} (h : header.opening kind pool = .ok member) :
    header.member kind = .ok member := by
  rw [MemberHeader.opening] at h
  cases hfound : header.member kind with
  | error fault =>
    rw [hfound] at h
    cases h
  | ok found =>
    rw [hfound] at h
    change (checkDescriptor header.descriptorIndex pool >>= fun _ => .ok found) = _ at h
    cases hcheck : checkDescriptor header.descriptorIndex pool with
    | error fault =>
      rw [hcheck] at h
      cases h
    | ok _ =>
      rw [hcheck] at h
      exact h

/-- What is known of a member before its attributes: its header, and no signature. -/
theorem start_of_opening {header : MemberHeader} {kind : LastMember} {pool : Pool}
    {member : Member} (h : header.opening kind pool = .ok member) :
    member.header = (header.access, header.name, header.descriptor) ∧ member.signature = none := by
  have hmember := member_of_opening h
  cases kind with
  | field =>
    cases hmember
    exact ⟨rfl, rfl⟩
  | method =>
    rw [MemberHeader.member] at hmember
    cases harguments : Signature.arguments header.descriptor with
    | error fault =>
      rw [harguments] at hmember
      cases hmember
    | ok arguments =>
      rw [harguments] at hmember
      cases hmember
      exact ⟨rfl, rfl⟩

/-- Steps that are taken alongside themselves leave the setting as it is. -/
theorem setting_of_concurs {α : Type} {pool : Pool} {m : Decode α} {s t : Decoder} {value : α}
    (hm : Concurs (Decoder.Alongside pool s.setting s.setting) m m) (hlike : s.pool.Like pool)
    (hrun : m s = .ok value t) : t.setting = s.setting ∧ t.pool.Like pool := by
  have halongside : Decoder.Alongside pool s.setting s.setting s s :=
    ⟨rfl, hlike, hlike, rfl, rfl, fun _ _ => rfl, rfl, rfl⟩
  obtain ⟨_, _, _, hdone, -, hend⟩ | ⟨_, _, _, _, hdone, -⟩ := (hm s s halongside).eq_or
  · cases hdone.symm.trans hrun
    exact ⟨hend.left, hend.pool_left⟩
  · cases hdone.symm.trans hrun

/-- What stands in the input does not matter to a member that is read by itself. -/
theorem alone_of_ok {kind : LastMember} {raw : RawMember} {pool : Pool} {walking : Bool}
    {t : Decoder} (hfits : RawMember.form.Fits raw) (input : Input)
    (hrun : memberOf ⟨.exact, none⟩ kind raw { Decoder.blank pool walking with input := input } =
      .ok () t) : raw.alone kind pool walking = (t.members kind).back? := by
  have hblank : memberOf ⟨.exact, none⟩ kind raw (.blank pool walking) = _ :=
    ok_of_unfed (unfed_memberOf _ hfits) hrun (.ofBytes [])
  rw [RawMember.alone, hblank]
  rfl

/-- A member that can be opened in a class can be opened alone, and then both are alongside. -/
theorem openMember_alongside {kind : LastMember} {header : MemberHeader} {pool : Pool}
    {walking : Bool} {s u : Decoder} (hlike : s.pool.Like pool) (hrecord : s.record.isSome = true)
    (hmethods : kind = .field → s.members .method = #[])
    (hwalking : kind = .method → s.walking = walking)
    (hopen : openMember ⟨namer, none⟩ kind header s = .ok () u) :
    ∃ start v, header.opening kind pool = .ok start ∧ s.Begins kind start u ∧
      openMember ⟨.exact, none⟩ kind header
        { Decoder.blank pool walking with input := s.input } = .ok () v ∧
      Decoder.Alongside pool u.setting v.setting u v ∧
      (kind = .method → u.setting.walking = v.setting.walking) := by
  obtain ⟨start, _, hopening, hopen', hopens⟩ | ⟨_, _, -, hopen'⟩ :=
    @openMember_ends namer kind header s hrecord
  swap
  · cases hopen'.symm.trans hopen
  cases hopen'.symm.trans hopen
  have hopening := (question_opening header kind).ok_of_like hlike hopening
  obtain ⟨_, v, hopening', hopen', hopens'⟩ | ⟨_, _, hopening', -⟩ := @openMember_ends .exact kind
    header { Decoder.blank pool walking with input := s.input } rfl
  swap
  · cases hopening'.symm.trans hopening
  cases hopening'.symm.trans hopening
  refine ⟨start, v, hopening, hopens, hopen', ?_, fun hkind => ?_⟩
  · refine hopens.alongside hopens' rfl hlike (.refl pool) fun hkind => ?_
    rw [hmethods hkind]
    rfl
  · exact ((hopens.walking hkind).trans (hwalking hkind)).trans (hopens'.walking hkind).symm

/-- **A member of a class is what it is by itself.** What its attributes say is put into this member
and no other, so it can be computed from its own bytes, the pool, and whether bodies are walked
through. -/
theorem memberOf_ok {kind : LastMember} {raw : RawMember} {pool : Pool} {walking : Bool}
    {s t : Decoder} (hfits : RawMember.form.Fits raw) (hlike : s.pool.Like pool)
    (hrecord : s.record.isSome = true) (hmethods : kind = .field → s.members .method = #[])
    (hwalking : kind = .method → s.walking = walking)
    (hrun : memberOf ⟨namer, none⟩ kind raw s = .ok () t) : s.Gains pool walking kind [raw] t := by
  rw [memberOf_eq] at hrun
  obtain ⟨header, w, hread, hrest⟩ := EStateM.ok_of_bind hrun
  obtain ⟨hsame, haccess, hindex, hname, hdescriptor⟩ := memberHeaderOf_ok hread
  rw [hsame] at hrest
  obtain ⟨_, u, hopen, hattributes⟩ := EStateM.ok_of_bind hrest
  -- what stands in the input does not matter
  let blank : Decoder := { Decoder.blank pool walking with input := s.input }
  obtain ⟨start, v, hopening, hopens, hopen', halongside, hwalks⟩ :=
    openMember_alongside hlike hrecord hmethods hwalking hopen
  obtain ⟨_, _, t', hdone, hdone', hend⟩ | ⟨_, _, _, _, hdone, -⟩ :=
    (afterOpening_alongside hwalks header raw.attributes u v halongside).eq_or
  swap
  · cases hdone.symm.trans hattributes
  cases hdone.symm.trans hattributes
  have hheader : memberHeaderOf raw blank = .ok header blank :=
    memberHeaderOf_of_ok haccess hindex (Pool.Question.ok_of_like (.utf8 _) hlike hname)
      (Pool.Question.ok_of_like (.utf8 _) hlike hdescriptor)
  have hblank : memberOf ⟨.exact, none⟩ kind raw blank = .ok () t' := by
    rw [memberOf_eq]
    exact EStateM.bind_eq hheader (EStateM.bind_eq hopen' hdone')
  have halone := alone_of_ok hfits s.input hblank
  obtain ⟨hlast, ⟨member, hpush, houtline⟩, hothers⟩ := hopens.push hend.left
  have hpresents : raw.Presents pool member :=
    .of_header ((congrArg Prod.snd houtline).trans (start_of_opening hopening).1) haccess
      (Pool.Question.ok_of_like (.utf8 _) hlike hname)
      (Pool.Question.ok_of_like (.utf8 _) hlike hdescriptor)
  exact {
    like := hend.pool_left
    headline := (congrArg Decoder.Setting.headline hend.left).trans hopens.headline
    members := by
      refine ⟨[member], ?_, .cons ⟨hpresents, ?_⟩ .nil⟩
      · rw [hpush, Array.push_eq_append]
      · rw [halone, ← hend.current kind (.inl hlast), hpush, Array.back?_push]
    others := hothers
    walking := fun h => (congrArg Decoder.Setting.walking hend.left).trans (hopens.walking h) }

/-- All members of one kind are on record in the order of the file, each as it is by itself. -/
theorem membersOf_ok {kind : LastMember} {raws : List RawMember} {pool : Pool} {walking : Bool}
    {s t : Decoder} (hfits : ∀ raw ∈ raws, RawMember.form.Fits raw)
    (hlike : s.pool.Like pool) (hrecord : s.record.isSome = true)
    (hmethods : kind = .field → s.members .method = #[])
    (hwalking : kind = .method → s.walking = walking)
    (hrun : raws.forM (memberOf ⟨namer, none⟩ kind) s = .ok () t) :
    s.Gains pool walking kind raws t := by
  induction raws generalizing s with
  | nil =>
    cases hrun
    exact .nil hlike
  | cons raw raws ih =>
    obtain ⟨_, u, hfirst, hrest⟩ := EStateM.ok_of_bind hrun
    obtain ⟨hraw, hraws⟩ := List.forall_mem_cons.1 hfits
    have hgains := memberOf_ok hraw hlike hrecord hmethods hwalking hfirst
    refine hgains.append (ih hraws hgains.like (hgains.isSome_record hrecord) ?_ ?_ hrest)
    · intro hkind
      rw [hgains.others .method (by rw [hkind]; decide), hmethods hkind]
    · exact fun hkind => (hgains.walking hkind).trans (hwalking hkind)

/-- A member that is read by itself is opened, and then what is said of it is put on record. -/
theorem alone_eq_some {kind : LastMember} {raw : RawMember} {pool : Pool} {walking : Bool}
    {member : Member} (h : raw.alone kind pool walking = some member) :
    ∃ header start u t, memberHeaderOf raw (.blank pool walking) =
      .ok header (.blank pool walking) ∧
      header.opening kind pool = .ok start ∧ Decoder.Begins kind start (.blank pool walking) u ∧
      afterOpening ⟨.exact, none⟩ kind header raw.attributes u = .ok () t ∧
      (t.members kind).back? = some member := by
  rw [RawMember.alone] at h
  cases hrun : memberOf ⟨.exact, none⟩ kind raw (.blank pool walking) with
  | error fault t =>
    rw [hrun] at h
    cases h
  | ok _ t =>
    rw [hrun] at h
    rw [memberOf_eq] at hrun
    obtain ⟨header, _, hread, hrest⟩ := EStateM.ok_of_bind hrun
    obtain ⟨rfl, -⟩ := memberHeaderOf_ok hread
    obtain ⟨_, u, hopen, hattributes⟩ := EStateM.ok_of_bind hrest
    obtain ⟨start, _, hopening, hopen', hopens⟩ | ⟨_, _, -, hopen'⟩ :=
      @openMember_ends .exact kind header (.blank pool walking) rfl
    · cases hopen'.symm.trans hopen
      exact ⟨header, start, u, t, hread, hopening, hopens, hattributes, h⟩
    · cases hopen'.symm.trans hopen

/-- **Whether bodies are walked through** does not matter to the outline of a member, and not at all
to a field. -/
theorem alone_walking {kind : LastMember} {raw : RawMember} {pool : Pool} {walking walking' : Bool}
    {member other : Member} (h : raw.alone kind pool walking = some member)
    (h' : raw.alone kind pool walking' = some other) :
    member.outline = other.outline ∧ (kind = .field → member = other) := by
  obtain ⟨header, start, u, t, hread, hopening, hopens, hrun, hmember⟩ := alone_eq_some h
  obtain ⟨_, _, u', t', hread', hopening', hopens', hrun', hother⟩ := alone_eq_some h'
  obtain ⟨-, haccess, hindex, hname, hdescriptor⟩ := memberHeaderOf_ok hread
  have hsame : memberHeaderOf raw (.blank pool walking') = .ok header (.blank pool walking') :=
    memberHeaderOf_of_ok haccess hindex hname hdescriptor
  cases hread'.symm.trans hsame
  cases hopening'.symm.trans hopening
  -- attributes leave the outline of the member alone that was opened
  have houtline {walking : Bool} {u t : Decoder} {member : Member}
      (hopens : Decoder.Begins kind start (.blank pool walking) u)
      (hrun : afterOpening ⟨.exact, none⟩ kind header raw.attributes u = .ok () t)
      (hmember : (t.members kind).back? = some member) : member.outline = start.outline := by
    have hlike : u.pool.Like pool := hopens.pool ▸ .refl pool
    have hkept := (setting_of_concurs (afterOpening_alongside (fun _ => rfl) header raw.attributes)
      hlike hrun).1
    obtain ⟨-, ⟨found, hpush, hsame⟩, -⟩ := hopens.push hkept
    rw [hpush, Array.back?_push] at hmember
    exact Option.some.inj hmember ▸ hsame
  refine ⟨(houtline hopens hrun hmember).trans (houtline hopens' hrun' hother).symm, ?_⟩
  rintro rfl
  have halongside : Decoder.Alongside pool u.setting u'.setting u u' :=
    hopens.alongside hopens' rfl (.refl pool) (.refl pool) fun _ => rfl
  obtain ⟨_, v, v', hdone, hdone', hend⟩ | ⟨_, _, _, _, hdone, -⟩ :=
    (@afterOpening_alongside .exact .exact pool _ _ .field nofun header raw.attributes u u'
      halongside).eq_or
  · cases hdone.symm.trans hrun
    cases hdone'.symm.trans hrun'
    have hlast : t.last = some .field :=
      (congrArg Decoder.Setting.last hend.left).trans hopens.last
    rw [hend.current .field (.inl hlast), hother] at hmember
    exact (Option.some.inj hmember).symm
  · cases hdone.symm.trans hrun

end Decode

/-! ### The class -/

/-- The class at an index of a pool. -/
def Pool.typeAt (pool : Pool) (index : UInt16) : Option TypeName :=
  (pool.className index).toOption.map .ofText

namespace Record

/-- The record says of the class and its members what the layout says, in the same order. -/
structure Presents (layout : Layout) (record : Record) : Prop where
  minor : record.minor = layout.minor
  major : record.major = layout.major
  access : record.access = layout.access
  name : layout.constants.typeAt layout.name = some record.name
  superclass : if layout.superclass = 0 then record.superclass = none
    else ∃ type, layout.constants.typeAt layout.superclass = some type ∧
      record.superclass = some type
  interfaces : layout.interfaces.map layout.constants.typeAt = record.interfaces.map some
  members (kind : LastMember) :
    List.Forall₂ (RawMember.Presents layout.constants) (layout.members kind)
      (record.members kind).toList

/-- Each member of the record is what comes of it when it is read by itself. -/
def Owns (layout : Layout) (walking : Bool) (record : Record) : Prop :=
  ∀ kind, List.Forall₂
    (fun raw member => raw.alone kind layout.constants walking = some member)
    (layout.members kind) (record.members kind).toList

/-- The records are of the same class, with the same supertypes and the same fields. Their methods
have the same outlines. -/
structure Outlines (record other : Record) : Prop where
  minor : record.minor = other.minor
  major : record.major = other.major
  access : record.access = other.access
  name : record.name = other.name
  superclass : record.superclass = other.superclass
  interfaces : record.interfaces = other.interfaces
  fields : record.fields = other.fields
  methods : record.methods.map Member.outline = other.methods.map Member.outline

/-- **Records of one layout have the same outlines**, whether bodies are walked through or not. -/
theorem Presents.outlines {layout : Layout} {record other : Record} {walking walking' : Bool}
    (h : record.Presents layout) (howns : record.Owns layout walking) (h' : other.Presents layout)
    (howns' : other.Owns layout walking') : record.Outlines other where
  minor := h.minor.trans h'.minor.symm
  major := h.major.trans h'.major.symm
  access := h.access.trans h'.access.symm
  name := Option.some.inj (h.name.symm.trans h'.name)
  superclass := by
    have hsuper := h.superclass
    have hsuper' := h'.superclass
    split at hsuper
    · rename_i hzero
      rw [if_pos hzero] at hsuper'
      exact hsuper.trans hsuper'.symm
    · rename_i hindex
      rw [if_neg hindex] at hsuper'
      obtain ⟨type, htype, hsame⟩ := hsuper
      obtain ⟨type', htype', hsame'⟩ := hsuper'
      rw [hsame, hsame', ← htype, ← htype']
  interfaces := List.map_injective_iff.2 (fun _ _ => Option.some.inj)
    (h.interfaces.symm.trans h'.interfaces)
  fields := by
    have hsame : List.Forall₂ Eq (record.members .field).toList (other.members .field).toList :=
      (howns .field).of_both (fun hleft hright => (Decode.alone_walking hleft hright).2 rfl)
        (howns' .field)
    rw [List.forall₂_eq_eq_eq] at hsame
    exact Array.toList_inj.1 hsame
  methods := by
    have hsame : List.Forall₂ (fun member member' => member.outline = member'.outline)
        (record.members .method).toList (other.members .method).toList :=
      (howns .method).of_both (fun hleft hright => (Decode.alone_walking hleft hright).1)
        (howns' .method)
    rw [← Array.toList_inj, Array.toList_map, Array.toList_map, ← List.forall₂_eq_eq_eq]
    exact List.forall₂_map_left_iff.2 (List.forall₂_map_right_iff.2 hsame)

end Record

namespace Decode

variable {namer : Namer}

theorem typeAt_of_className {pool other : Pool} {index : UInt16} {name : String}
    (hlike : other.Like pool) (hname : other.className index = .ok name) :
    pool.typeAt index = some (.ofText name) := by
  rw [Pool.typeAt, Pool.Question.ok_of_like (.className index) hlike hname]
  rfl

theorem typeAt_of_classAt {pool : Pool} {index : UInt16} {type : TypeName} {s t : Decoder}
    (hlike : s.pool.Like pool) (hrun : classAt index s = .ok type t) :
    t = s ∧ pool.typeAt index = some type := by
  obtain ⟨name, hname, rfl, rfl⟩ := ok_of_classAt hrun
  exact ⟨rfl, typeAt_of_className hlike hname⟩

/-- The superclass is referred to and put on record, and no member is touched by that. -/
theorem superclassAt_ok {access : Access} {index : UInt16} {pool : Pool} {s t : Decoder}
    (hlike : s.pool.Like pool) (hrun : superclassAt ⟨namer, none⟩ access index s = .ok () t) :
    if index = 0 then t = s else ∃ type, pool.typeAt index = some type ∧
      t.bare = Decoder.bare { s with
        record := s.record.map fun record => { record with superclass := some type } } := by
  rw [superclassAt] at hrun
  split
  · rename_i hzero
    rw [if_neg (not_not.2 hzero)] at hrun
    cases hrun
    rfl
  · rename_i hindex
    rw [if_pos hindex] at hrun
    obtain ⟨type, _, hclass, hrest⟩ := EStateM.ok_of_bind hrun
    obtain ⟨rfl, htype⟩ := typeAt_of_classAt hlike hclass
    obtain ⟨_, u, hrefer, hrest⟩ := EStateM.ok_of_bind hrest
    obtain ⟨_, _, htell, hput⟩ := EStateM.ok_of_bind hrest
    cases htell
    refine ⟨type, htype, ?_⟩
    rw [ok_of_updateRecord hput]
    let put (s : Decoder) : Decoder :=
      { s with record := s.record.map fun record => { record with superclass := some type } }
    exact congrArg put ((Collects.refer type access).bare_of_ok hrefer)

theorem interfacesAt_ok {access : Access} {indices : List UInt16} {types : List TypeName}
    {pool : Pool} {s t : Decoder} (hlike : s.pool.Like pool)
    (hrun : indices.mapM (interfaceAt ⟨namer, none⟩ access) s = .ok types t) :
    t.bare = s.bare ∧ indices.map pool.typeAt = types.map some := by
  induction indices generalizing s types with
  | nil =>
    cases hrun
    exact ⟨rfl, rfl⟩
  | cons index indices ih =>
    rw [List.mapM_cons] at hrun
    obtain ⟨type, u, hfirst, hrest⟩ := EStateM.ok_of_bind hrun
    obtain ⟨more, v, hmore, hlast⟩ := EStateM.ok_of_bind hrest
    cases hlast
    obtain ⟨_, _, hclass, hrefer⟩ := EStateM.ok_of_bind hfirst
    obtain ⟨rfl, htype⟩ := typeAt_of_classAt hlike hclass
    obtain ⟨_, w, hrefer, hlast⟩ := EStateM.ok_of_bind hrefer
    cases hlast
    have hbare := (Collects.refer _ access).bare_of_ok hrefer
    obtain ⟨hbare', htypes⟩ := ih (Decoder.like_of_bare hbare hlike) hmore
    refine ⟨hbare'.trans hbare, ?_⟩
    rw [List.map_cons, List.map_cons, htype, htypes]

/-- The interfaces are referred to and put on record, and no member is touched by that either. -/
theorem interfacesOf_ok {access : Access} {indices : List UInt16} {pool : Pool} {s t : Decoder}
    (hlike : s.pool.Like pool) (hrun : interfacesOf ⟨namer, none⟩ access indices s = .ok () t) :
    ∃ types, indices.map pool.typeAt = types.map some ∧ t.bare = Decoder.bare
      { s with record := s.record.map fun record => { record with interfaces := types } } := by
  obtain ⟨types, u, htypes, hkeep⟩ := EStateM.ok_of_bind hrun
  obtain ⟨hbare, hmap⟩ := interfacesAt_ok hlike htypes
  refine ⟨types, hmap, ?_⟩
  let put (s : Decoder) : Decoder :=
    { s with record := s.record.map fun record => { record with interfaces := types } }
  have hput : t = put u := by
    rw [keepInterfaces] at hkeep
    split at hkeep
    · exact ok_of_updateRecord hkeep
    · obtain ⟨_, _, htell, hput⟩ := EStateM.ok_of_bind hkeep
      cases htell
      exact ok_of_updateRecord hput
  rw [hput]
  exact congrArg put hbare

/-- The header of the class is on record, and there are no members yet. -/
theorem classHeaderOf_record {raw : RawHeader} {found : Record × Bool} {s t : Decoder}
    (hlast : s.last = none) (hrun : classHeaderOf ⟨namer, none⟩ raw s = .ok found t) :
    ∃ type, raw.constants.typeAt raw.name = some type ∧
      t.record = some (.header type raw.major raw.minor raw.access) ∧ t.last = none ∧
      t.pool.Like raw.constants := by
  obtain ⟨u, name, hrefer, hname, rfl, hopen⟩ := classHeaderOf_eq_ok_iff.1 hrun
  obtain ⟨hsetting, hlike⟩ := setting_of_concurs
    (Decoder.local_alongside.toLenient.pooled.referPool) (Pool.Like.refl _) hrefer
  have htype : raw.constants.typeAt raw.name = some (.ofText name) :=
    typeAt_of_className hlike hname
  obtain ⟨v, hclass, rfl⟩ := openClass_eq_ok_iff.1 hopen
  have hbare := (Collects.refer _ _).bare_of_ok hclass
  have hlike' : v.pool.Like raw.constants := Decoder.like_of_bare hbare hlike
  refine ⟨_, htype, rfl, ?_, hlike'⟩
  have hkept := congrArg Decoder.last hbare
  exact hkept.trans ((congrArg Decoder.Setting.last hsetting).trans hlast)

/-- The superclass is on record, which is none if there is no class constant for it. -/
theorem superclassAt_record {access : Access} {index : UInt16} {pool : Pool} {head : Record}
    {s t : Decoder} (hlike : s.pool.Like pool) (hrecord : s.record = some head)
    (hhead : head.superclass = none)
    (hrun : superclassAt ⟨namer, none⟩ access index s = .ok () t) :
    ∃ superclass,
      (if index = 0 then superclass = none
        else ∃ type, pool.typeAt index = some type ∧ superclass = some type) ∧
      t.record = some { head with superclass := superclass } ∧ t.pool.Like pool := by
  have hends := superclassAt_ok hlike hrun
  by_cases hzero : index = 0
  · rw [if_pos hzero] at hends
    refine ⟨none, by rw [if_pos hzero], ?_, hends ▸ hlike⟩
    rw [hends, hrecord, ← hhead]
  · rw [if_neg hzero] at hends
    obtain ⟨type, htype, hbare⟩ := hends
    refine ⟨some type, by rw [if_neg hzero]; exact ⟨type, htype, rfl⟩, ?_,
      Decoder.like_of_bare hbare hlike⟩
    refine (congrArg Decoder.record hbare).trans ?_
    change s.record.map _ = _
    rw [hrecord]
    rfl

/-- The supertypes are on record, and there are still no members. -/
theorem supertypes_ok {raw : RawBody} {pool : Pool} {access : Access} {head : Record}
    {s t u : Decoder} (hlike : s.pool.Like pool) (hrecord : s.record = some head)
    (hhead : head.superclass = none)
    (hsuper : superclassAt ⟨namer, none⟩ access raw.superclass s = .ok () t)
    (hinterfaces : interfacesOf ⟨namer, none⟩ access raw.interfaces t = .ok () u) :
    ∃ superclass types,
      (if raw.superclass = 0 then superclass = none
        else ∃ type, pool.typeAt raw.superclass = some type ∧ superclass = some type) ∧
      raw.interfaces.map pool.typeAt = types.map some ∧
      u.record = some { head with superclass := superclass, interfaces := types } ∧
      u.pool.Like pool := by
  obtain ⟨superclass, hsuperclass, hrecord', hlike'⟩ :=
    superclassAt_record hlike hrecord hhead hsuper
  obtain ⟨types, htypes, hbare⟩ := interfacesOf_ok hlike' hinterfaces
  refine ⟨superclass, types, hsuperclass, htypes, ?_, Decoder.like_of_bare hbare hlike'⟩
  refine (congrArg Decoder.record hbare).trans ?_
  change t.record.map _ = _
  rw [hrecord']
  rfl

/-- What is on record in the end is the record that is given. -/
theorem finish_ok {record : Record} {s t : Decoder} (hrun : finish s = .ok record t) :
    t = s ∧ s.record.map Record.headline = some record.headline ∧
      ∀ kind, s.members kind = record.members kind := by
  obtain ⟨rfl, found, hfound, rfl⟩ := ok_of_finish hrun
  refine ⟨rfl, by rw [hfound]; rfl, fun kind => ?_⟩
  rw [Decoder.members, hfound]
  cases kind <;> rfl

/-- The members are on record, and the attributes of the class leave them alone. -/
theorem classBodyOf_record {raw : RawBody} {pool : Pool} {orphan : Bool} {head record : Record}
    {s t : Decoder} (hfits : RawBody.form.Fits raw) (hlike : s.pool.Like pool)
    (hrecord : s.record = some head) (hhead : head.superclass = none)
    (hnone : ∀ kind, head.members kind = #[])
    (hrun : classBodyOf ⟨namer, none⟩ orphan raw s = .ok record t) :
    ∃ superclass types,
      (if raw.superclass = 0 then superclass = none
        else ∃ type, pool.typeAt raw.superclass = some type ∧ superclass = some type) ∧
      raw.interfaces.map pool.typeAt = types.map some ∧
      record.headline =
        Record.headline { head with superclass := superclass, interfaces := types } ∧
      ∀ kind, List.Forall₂
        (fun raw member => raw.Presents pool member ∧ raw.alone kind pool t.walking = some member)
        (match kind with
          | .field => raw.fields
          | .method => raw.methods) (record.members kind).toList := by
  obtain ⟨-, ⟨-, hfields⟩, ⟨-, hmethods⟩, -⟩ := hfits
  obtain ⟨found, t₁, t₂, t₃, t₄, t₅, t₆, hfound, hsuper, hinterfaces, hfieldsRun, hwalks,
    hmethodsRun, hattributes, hfinish⟩ := classBodyOf_eq_ok_iff.1 hrun
  cases hrecord.symm.trans hfound
  obtain ⟨superclass, types, hsuperclass, htypes, hrecord₂, hlike₂⟩ :=
    supertypes_ok hlike hrecord hhead hsuper hinterfaces
  have hnone₂ (kind : LastMember) : t₂.members kind = #[] := by
    rw [Decoder.members, hrecord₂]
    cases kind
    · exact hnone .field
    · exact hnone .method
  obtain ⟨walking, targets, rfl⟩ := prepareWalks_ok hwalks
  have hsome₂ : t₂.record.isSome = true := by rw [hrecord₂]; rfl
  -- whether bodies are walked through is decided after the fields, to which it does not matter
  have hgains₃ : t₂.Gains pool walking .field raw.fields t₃ :=
    membersOf_ok hfields hlike₂ hsome₂ (fun _ => hnone₂ .method) (fun h => by cases h) hfieldsRun
  have hgains₅ : Decoder.Gains pool walking .method raw.methods
      { t₃ with walking := walking, targets := targets } t₅ :=
    membersOf_ok hmethods hgains₃.like (hgains₃.isSome_record hsome₂) (fun h => by cases h)
      (fun _ => rfl) hmethodsRun
  let turned : Decoder := { t₅ with last := none }
  obtain ⟨hsetting, -⟩ : t₆.setting = turned.setting ∧ t₆.pool.Like pool := setting_of_concurs
    (Decoder.local_alongside.attributesOf (Simulates.pure ()) _ _ _) hgains₅.like hattributes
  have hheadline : t₆.record.map Record.headline = t₂.record.map Record.headline :=
    (congrArg Decoder.Setting.headline hsetting).trans (hgains₅.headline.trans hgains₃.headline)
  have hstill : t₆.walking = walking :=
    (congrArg Decoder.Setting.walking hsetting).trans (hgains₅.walking rfl)
  obtain ⟨rfl, hsame, hmembers⟩ := finish_ok hfinish
  rw [hrecord₂] at hheadline
  refine ⟨superclass, types, hsuperclass, htypes,
    Option.some.inj (hsame.symm.trans hheadline), fun kind => ?_⟩
  rw [hstill, ← hmembers, Decoder.members_of_setting hsetting rfl kind]
  cases kind with
  | field =>
    change List.Forall₂ _ raw.fields (t₅.members .field).toList
    rw [hgains₅.others .field (by decide)]
    exact hgains₃.all_members (hnone₂ .field)
  | method =>
    exact hgains₅.all_members ((hgains₃.others .method (by decide)).trans (hnone₂ .method))

/-- The record of a class says what the layout says, and has the members of the layout as they are
by themselves, where in the end it is known whether bodies were walked through. -/
theorem classOf_owns {layout : Layout} {s t : Decoder} {record : Record}
    (hfits : Layout.form.Fits layout) (hlast : s.last = none)
    (hrun : classOf ⟨namer, none⟩ layout s = .ok record t) :
    record.Presents layout ∧ record.Owns layout t.walking := by
  obtain ⟨⟨_, orphan⟩, u, hheader, hbody⟩ := EStateM.ok_of_bind hrun
  obtain ⟨type, htype, hrecord, -, hlike⟩ := classHeaderOf_record hlast hheader
  obtain ⟨superclass, types, hsuperclass, htypes, hheadline, hmembers⟩ :=
    classBodyOf_record hfits.2 hlike hrecord rfl (fun kind => by cases kind <;> rfl) hbody
  have hall (kind : LastMember) : List.Forall₂ (fun raw member =>
      raw.Presents layout.constants member ∧
        raw.alone kind layout.constants t.walking = some member)
      (layout.members kind) (record.members kind).toList := by
    cases kind
    · exact hmembers .field
    · exact hmembers .method
  refine ⟨?_, fun kind => (hall kind).imp fun _ _ h => h.2⟩
  have hname : record.name = type := congrArg Record.name hheadline
  have hsuper : record.superclass = superclass := congrArg Record.superclass hheadline
  have hinterfaces : record.interfaces = types := congrArg Record.interfaces hheadline
  exact {
    minor := congrArg Record.minor hheadline
    major := congrArg Record.major hheadline
    access := congrArg Record.access hheadline
    name := hname ▸ htype
    superclass := hsuper ▸ hsuperclass
    interfaces := hinterfaces ▸ htypes
    members := fun kind => (hall kind).imp fun _ _ h => h.1 }

theorem classOf_record {layout : Layout} {s t : Decoder} {record : Record}
    (hfits : Layout.form.Fits layout) (hlast : s.last = none)
    (hrun : classOf ⟨namer, none⟩ layout s = .ok record t) :
    record.Presents layout ∧ ∃ walking, record.Owns layout walking :=
  (classOf_owns hfits hlast hrun).imp_right fun howns => ⟨_, howns⟩

end Decode

namespace Session

/-- **What is written from a layout is read as the layout**: if it is accepted, it is read to the
end of the layout, the record says what the layout says, and what the attributes of a member tell
depends on that member, the pool, and whether method bodies are walked through. -/
theorem decode_encode {options : Options} {layout : Layout} (hfits : Layout.form.Fits layout)
    {trailing : Bytes} {session after : Session} {record : Record}
    (h : session.decode options (Layout.form.encode layout ++ trailing) = (.ok record, after)) :
    session.consumed options none (Layout.form.encode layout ++ trailing) =
        (Layout.form.encode layout).length ∧
      record.Presents layout ∧ ∃ walking, record.Owns layout walking := by
  obtain ⟨t, hrun, -⟩ := (decode_encode_iff hfits).1 h
  exact ⟨consumed_encode hfits h, Decode.classOf_record hfits rfl hrun⟩

/-- A class `A` with a deprecated field `f` of an integer type and a method of the same name. Of the
byte behind it nothing is consumed, and each member in the record says what its own bytes say. -/
theorem decode_encode_of_members :
    let layout : Layout :=
      { minor := 0, major := 52
        pool := [0, 7, 1, 0, 1, 65, 7, 0, 1, 1, 0, 1, 102, 1, 0, 1, 73, 1, 0, 3, 40, 41, 86,
          1, 0, 10, 68, 101, 112, 114, 101, 99, 97, 116, 101, 100]
        access := 0x21, name := 2, superclass := 0, interfaces := []
        fields := [⟨1, 3, 4, [⟨6, []⟩]⟩], methods := [⟨1, 3, 5, []⟩], attributes := [] }
    Layout.form.Fits layout ∧ ∃ record after,
      Session.decode {} (Layout.form.encode layout ++ [7]) {} = (.ok record, after) ∧
      Session.consumed {} none (Layout.form.encode layout ++ [7]) {} =
          (Layout.form.encode layout).length ∧
        record.Presents layout ∧ ∃ walking, record.Owns layout walking := by
  intro layout
  have hcount (n : Nat) (h : n < 2) : Form.count.Fits n := Nat.lt_trans h (by decide)
  have hfield : RawMember.form.Fits ⟨1, 3, 4, [⟨6, []⟩]⟩ :=
    ⟨hcount 1 (by decide), List.forall_mem_singleton.2 (Nat.zero_le _)⟩
  have hmethod : RawMember.form.Fits ⟨1, 3, 5, []⟩ := ⟨hcount 0 (by decide), nofun⟩
  have hpool : (Pool.ofBytes layout.pool).isSome = true := by decide +kernel
  have hfits : Layout.form.Fits layout :=
    ⟨hpool, ⟨hcount 0 (by decide), nofun⟩,
      ⟨hcount 1 (by decide), List.forall_mem_singleton.2 hfield⟩,
      ⟨hcount 1 (by decide), List.forall_mem_singleton.2 hmethod⟩, hcount 0 (by decide), nofun⟩
  refine ⟨hfits, ?_⟩
  have hok : (Session.decode {} (Layout.form.encode layout ++ [7]) {}).1.isOk = true := by
    decide +kernel
  obtain ⟨record, after, hrun⟩ := decode_of_isOk hok
  exact ⟨record, after, hrun, @decode_encode {} layout hfits [7] {} after record hrun⟩

end Session

end ClassFile
