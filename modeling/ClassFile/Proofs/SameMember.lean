import ClassFile.Proofs.Acting
import ClassFile.Proofs.Collecting
import ClassFile.Proofs.Unambiguous

/-!
# Members that are read alongside each other

One member is read by two decodings, which need not be of the same class. Once both have opened the
member they differ in what was collected, in the marks of the pool, and in all that is around the
member. `ClassFile.Decoder.Alongside` says what they have in common, and that what is around the
member stays as it was on either side. Its attributes keep this
(`ClassFile.Decoder.local_alongside`), so that they do the same to the member in both decodings
(`ClassFile.Decode.afterOpening_alongside`).

Whether a member can be opened depends on its header and on the pool alone
(`ClassFile.Decode.openMember_ends`).
-/

/-! ### The last of an array -/

namespace Array

variable {α : Type}

theorem pop_modify_last (xs : Array α) (f : α → α) :
    (xs.modify (xs.size - 1) f).pop = xs.pop := by
  refine ext_getElem? fun j => ?_
  rw [getElem?_pop, getElem?_pop, size_modify]
  split
  · rename_i hj
    rw [getElem?_modify, if_neg (Nat.ne_of_gt hj)]
  · rfl

theorem back?_modify_last (xs : Array α) (f : α → α) :
    (xs.modify (xs.size - 1) f).back? = xs.back?.map f := by
  rw [back?, size_modify, getElem?_modify, if_pos rfl, back?]

end Array

namespace ClassFile

/-! ### What is around a member -/

/-- A record of which only the header and the supertypes are left. -/
def Record.headline (record : Record) : Record :=
  { Record.header record.name record.major record.minor record.access with
    superclass := record.superclass, interfaces := record.interfaces }

namespace Decoder

/-- What the attributes of a member leave as it is: all that is said of the class before its
members, the outlines of all members, the members but for the current one, and the decoder's own
place. -/
structure Setting where
  headline : Option Record
  outlines : LastMember → Array (MemberKind × Access × String × String)
  others : LastMember → Array Member
  last : Option LastMember
  walking : Bool

/-- What is around the current member. -/
def setting (s : Decoder) : Setting where
  headline := s.record.map Record.headline
  outlines kind := (s.members kind).map Member.outline
  others kind := if s.last = some kind then (s.members kind).pop else s.members kind
  last := s.last
  walking := s.walking

/-- If no member is current, a setting has all members in it. -/
theorem members_of_setting {s t : Decoder} (h : t.setting = s.setting) (hlast : s.last = none)
    (kind : LastMember) : t.members kind = s.members kind := by
  have hothers : (if t.last = some kind then (t.members kind).pop else t.members kind) =
      if s.last = some kind then (s.members kind).pop else s.members kind :=
    congrFun (congrArg Setting.others h) kind
  have hlast' : t.last = none := (congrArg Setting.last h).trans hlast
  rwa [hlast, hlast', if_neg (Option.some_ne_none kind).symm] at hothers

/-- Two decoders read the same attributes of the same member with the same pool, each in a
setting of its own. -/
structure Alongside (pool : Pool) (a b : Setting) (s t : Decoder) : Prop where
  input : s.input = t.input
  pool_left : s.pool.Like pool
  pool_right : t.pool.Like pool
  isSome_record : s.record.isSome = t.record.isSome
  last : s.last = t.last
  current (kind : LastMember) : s.last = some kind ∨ kind = .method →
    (s.members kind).back? = (t.members kind).back?
  left : s.setting = a
  right : t.setting = b

variable {pool : Pool} {a b : Setting} {s t : Decoder}

theorem members_marginal {f : Record → Record} (hf : Record.Marginal f) (s : Decoder)
    (kind : LastMember) : members kind { s with record := s.record.map f } = s.members kind := by
  have hsame : (·.members kind) ∘ f = (·.members kind) := by
    funext record
    cases kind
    · exact hf.fields record
    · exact hf.methods record
  change ((s.record.map f).map (·.members kind)).getD #[] = _
  rw [members, Option.map_map, hsame]

theorem setting_marginal {f : Record → Record} (hf : Record.Marginal f) (s : Decoder) :
    setting { s with record := s.record.map f } = s.setting := by
  have hsame : Record.headline ∘ f = Record.headline := by
    funext record
    simp only [Function.comp_apply, Record.headline, hf.name, hf.major, hf.minor, hf.access,
      hf.superclass, hf.interfaces]
  simp only [setting, members_marginal hf, Option.map_map, hsame]

theorem setting_updateLast {f : Member → Member}
    (hf : ∀ member, (f member).outline = member.outline) {s : Decoder} {last : LastMember}
    (hlast : s.last = some last) :
    setting { s with record := s.record.map (·.updateLast last f) } = s.setting := by
  have hsame : Record.headline ∘ (·.updateLast last f) = Record.headline := by
    funext record
    cases last <;> rfl
  simp only [setting, members_updateLast, Option.map_map, hsame, Setting.mk.injEq, true_and,
    and_true]
  constructor
  · funext kind
    split
    · exact Array.map_modify_of_eq hf _ _
    · rfl
  · funext kind
    by_cases hkind : last = kind
    · subst hkind
      rw [if_pos hlast, if_pos hlast, if_pos rfl, Array.pop_modify_last]
    · rw [if_neg hkind]

/-- Attributes of one member are read alongside each other, whatever is around the member. -/
theorem local_alongside : Decode.Local (Alongside pool a b) where
  input h := h.input
  withInput _ h := { h with input := rfl }
  pool h := h.pool_left.trans h.pool_right.symm
  -- whatever was collected is no part of the relation
  bare {s s' t t'} h hs ht := by
    have h : Alongside pool a b s.bare t.bare :=
      ⟨h.input, h.pool_left, h.pool_right, h.isSome_record, h.last, h.current, h.left, h.right⟩
    rw [← hs, ← ht] at h
    exact ⟨h.input, h.pool_left, h.pool_right, h.isSome_record, h.last, h.current, h.left, h.right⟩
  marked index h :=
    { h with
      pool_left := (Pool.like_markReferred _ index).trans h.pool_left
      pool_right := (Pool.like_markReferred _ index).trans h.pool_right }
  last h := h.last
  method {s t} h := by
    have hmethod (s : Decoder) : s.record.bind (·.methods.back?) = (s.members .method).back? := by
      rw [members]
      cases s.record <;> rfl
    rw [hmethod, hmethod, h.current .method (.inr rfl)]
  isSome_record h := h.isSome_record
  updateRecord hf h :=
    { h with
      isSome_record := by rw [Option.isSome_map, Option.isSome_map, h.isSome_record]
      current := fun kind hkind => by
        rw [members_marginal hf, members_marginal hf, h.current kind hkind]
      left := by rw [setting_marginal hf, h.left]
      right := by rw [setting_marginal hf, h.right] }
  updateLast hf hlast h :=
    { h with
      isSome_record := by rw [Option.isSome_map, Option.isSome_map, h.isSome_record]
      current := fun kind hkind => by
        rw [members_updateLast, members_updateLast]
        split
        · rw [Array.back?_modify_last, Array.back?_modify_last, h.current kind hkind]
        · exact h.current kind hkind
      left := by rw [setting_updateLast hf hlast, h.left]
      right := by rw [setting_updateLast hf (h.last ▸ hlast), h.right] }

/-! ### Opening a member -/

/-- A member was put on record and became the current one. -/
structure Begins (kind : LastMember) (member : Member) (s t : Decoder) : Prop where
  input : t.input = s.input
  pool : t.pool = s.pool
  isSome_record : t.record.isSome = true
  headline : t.record.map Record.headline = s.record.map Record.headline
  members : t.members kind = (s.members kind).push member
  others (other : LastMember) : other ≠ kind → t.members other = s.members other
  last : t.last = some kind
  walking : kind = .method → t.walking = s.walking

theorem Begins.of_bare {kind : LastMember} {member : Member} {s t : Decoder} {found later : Record}
    {walking : Bool} (hfound : s.record = some found)
    (hbare : t.bare = bare { s with record := some later, last := some kind, walking := walking })
    (hheadline : later.headline = found.headline)
    (hmembers : later.members kind = (found.members kind).push member)
    (hothers : ∀ other, other ≠ kind → later.members other = found.members other)
    (hwalking : kind = .method → walking = s.walking) : s.Begins kind member t where
  input := (congrArg Decoder.input hbare :)
  pool := (congrArg Decoder.pool hbare :)
  isSome_record := by
    rw [show t.record = some later from congrArg Decoder.record hbare]
    rfl
  headline := by
    rw [show t.record = some later from congrArg Decoder.record hbare, hfound]
    exact congrArg some hheadline
  members := by
    rw [Decoder.members, Decoder.members, hfound,
      show t.record = some later from congrArg Decoder.record hbare]
    exact hmembers
  others other h := by
    rw [Decoder.members, Decoder.members, hfound,
      show t.record = some later from congrArg Decoder.record hbare]
    exact hothers other h
  last := congrArg Decoder.last hbare
  walking h := (congrArg Decoder.walking hbare).trans (hwalking h)

/-- Decoders that opened the same member are alongside each other. -/
theorem Begins.alongside {kind : LastMember} {member : Member} {s s' t t' : Decoder}
    (h : s.Begins kind member t) (h' : s'.Begins kind member t') (hinput : s.input = s'.input)
    (hlike : s.pool.Like pool) (hlike' : s'.pool.Like pool)
    (hmethods : kind = .field → s.members .method = s'.members .method) :
    Alongside pool t.setting t'.setting t t' where
  input := by rw [h.input, h'.input, hinput]
  pool_left := h.pool ▸ hlike
  pool_right := h'.pool ▸ hlike'
  isSome_record := by rw [h.isSome_record, h'.isSome_record]
  last := by rw [h.last, h'.last]
  current other hother := by
    by_cases hkind : other = kind
    · rw [hkind, h.members, h'.members, Array.back?_push, Array.back?_push]
    · -- while a field is read there are no methods
      obtain rfl : other = .method := hother.resolve_left fun hlast =>
        hkind (Option.some.inj (hlast.symm.trans h.last))
      have hfield : kind = .field := by
        cases kind with
        | field => rfl
        | method => exact absurd rfl hkind
      rw [h.others _ hkind, h'.others _ hkind, hmethods hfield]
  left := rfl
  right := rfl

/-- What was opened is extended by one member, as long as its setting stays. -/
theorem Begins.push {kind : LastMember} {start : Member} {s t u : Decoder}
    (h : s.Begins kind start t) (hsame : u.setting = t.setting) :
    u.last = some kind ∧ (∃ member, u.members kind = (s.members kind).push member ∧
      member.outline = start.outline) ∧
    ∀ other, other ≠ kind → u.members other = s.members other := by
  have hlast : u.last = some kind := (congrArg Setting.last hsame).trans h.last
  have hothers (other : LastMember) :
      (if u.last = some other then (u.members other).pop else u.members other) =
        if t.last = some other then (t.members other).pop else t.members other :=
    congrFun (congrArg Setting.others hsame) other
  refine ⟨hlast, ?_, fun other hother => ?_⟩
  · have hpop := hothers kind
    rw [if_pos hlast, if_pos h.last, h.members, Array.pop_push] at hpop
    have houtlines : (u.members kind).map Member.outline = (t.members kind).map Member.outline :=
      congrFun (congrArg Setting.outlines hsame) kind
    have hsize : (u.members kind).size ≠ 0 := by
      have hsize := congrArg Array.size houtlines
      rw [Array.size_map, Array.size_map, h.members, Array.size_push] at hsize
      omega
    obtain ⟨front, member, hpush⟩ := Array.eq_push_of_size_ne_zero hsize
    rw [hpush, Array.pop_push] at hpop
    subst hpop
    refine ⟨member, hpush, ?_⟩
    rw [hpush, h.members, Array.map_push, Array.map_push] at houtlines
    exact Array.push_inj_right.1 houtlines
  · have hne : some kind ≠ some other := fun h => hother (Option.some.inj h).symm
    have hkept := hothers other
    rwa [hlast, h.last, if_neg hne, if_neg hne, h.others other hother] at hkept

end Decoder

namespace Decode

variable {namer : Namer}

/-- What `field` or `method` does with a member. -/
def memberOf (context : Context) : LastMember → RawMember → Decode Unit
  | .field => fieldOf context
  | .method => methodOf context

/-- What is done with a member before its attributes. -/
def openMember (context : Context) : LastMember → MemberHeader → Decode Unit
  | .field => openField context
  | .method => openMethod context

/-- A member before its attributes. -/
def MemberHeader.member (header : MemberHeader) : LastMember → Except Fault Member
  | .field => .ok (.field header.access header.name header.descriptor)
  | .method => (Signature.arguments header.descriptor).map fun arguments =>
    .method header.access header.name header.descriptor (arguments.map TypeName.ofText)

/-- A member before its attributes, if its descriptor is one. -/
def MemberHeader.opening (header : MemberHeader) (kind : LastMember) (pool : Pool) :
    Except Fault Member := do
  let member ← header.member kind
  checkDescriptor header.descriptorIndex pool
  return member

/-- The listener is told of a member, its descriptor is referred to, the record is extended, and
the member becomes the current one. -/
def putOnRecord (context : Context) (kind : LastMember) (event : Event) (header : MemberHeader)
    (extend : Record → Record) : Decode Unit := do
  tell context event
  referDescriptor context header.descriptorIndex header.access
  updateRecord extend
  modify fun s => { s with last := some kind }

theorem putOnRecord_ends (kind : LastMember) (event : Event) (header : MemberHeader)
    (extend : Record → Record) {s : Decoder} {found : Record} (hrecord : s.record = some found) :
    (∃ t, checkDescriptor header.descriptorIndex s.pool = .ok () ∧
      putOnRecord ⟨namer, none⟩ kind event header extend s = .ok () t ∧
      t.bare = Decoder.bare { s with record := some (extend found), last := some kind }) ∨
    ∃ fault t, checkDescriptor header.descriptorIndex s.pool = .error fault ∧
      putOnRecord ⟨namer, none⟩ kind event header extend s = .error fault t := by
  obtain ⟨t, hbare, hrefer⟩ := @referDescriptor_bare namer header.descriptorIndex header.access s
  cases hcheck : checkDescriptor header.descriptorIndex s.pool with
  | error fault =>
    rw [hcheck] at hrefer
    exact .inr ⟨fault, t, rfl, EStateM.bind_eq rfl (EStateM.bind_of_error hrefer)⟩
  | ok _ =>
    rw [hcheck] at hrefer
    have hfound : t.record = some found := (congrArg Decoder.record hbare).trans hrecord
    refine .inl ⟨{ t with record := some (extend found), last := some kind }, rfl, ?_, ?_⟩
    · refine EStateM.bind_eq rfl (EStateM.bind_eq hrefer ?_)
      exact EStateM.bind_eq (updateRecord_of_some hfound extend) rfl
    · exact congrArg
        (fun s : Decoder => { s with record := some (extend found), last := some kind }) hbare

/-- Whether a member can be opened, and as what, is what its header and the pool tell. -/
def OpensAsTold (namer : Namer) (kind : LastMember) (header : MemberHeader) (s : Decoder) : Prop :=
  (∃ member t, header.opening kind s.pool = .ok member ∧
    openMember ⟨namer, none⟩ kind header s = .ok () t ∧ s.Begins kind member t) ∨
  ∃ fault t, header.opening kind s.pool = .error fault ∧
    openMember ⟨namer, none⟩ kind header s = .error fault t

/-- A member is opened if it is put on record, and that depends on its descriptor. -/
theorem opensAsTold_of_eq {kind : LastMember} {header : MemberHeader} {member : Member}
    {event : Event} {extend : Record → Record} {s turned : Decoder} {found : Record}
    (hmember : header.member kind = .ok member)
    (hopen : openMember ⟨namer, none⟩ kind header s =
      putOnRecord ⟨namer, none⟩ kind event header extend turned)
    (hpool : turned.pool = s.pool) (hrecord : turned.record = some found)
    (hbegins : ∀ t, t.bare = Decoder.bare
      { turned with record := some (extend found), last := some kind } →
      s.Begins kind member t) : OpensAsTold namer kind header s := by
  have hopening : header.opening kind s.pool =
      (checkDescriptor header.descriptorIndex s.pool >>= fun _ => pure member) := by
    rw [MemberHeader.opening, hmember]
    rfl
  rw [OpensAsTold, hopen, hopening, ← hpool]
  rcases @putOnRecord_ends namer kind event header extend turned found hrecord with
    ⟨t, hcheck, hrun, hbare⟩ | ⟨fault, t, hcheck, hrun⟩
  · refine .inl ⟨member, t, ?_, hrun, hbegins t hbare⟩
    rw [hcheck]
    rfl
  · refine .inr ⟨fault, t, ?_, hrun⟩
    rw [hcheck]
    rfl

theorem openField_ends (header : MemberHeader) {s : Decoder} {found : Record}
    (hrecord : s.record = some found) : OpensAsTold namer .field header s := by
  let member := Member.field header.access header.name header.descriptor
  let extend (record : Record) : Record := { record with fields := record.fields.push member }
  let turned : Decoder :=
    { s with walking := if isClassLiteral header.name then true else s.walking }
  have hopen : openMember ⟨namer, none⟩ .field header s =
      putOnRecord ⟨namer, none⟩ .field (.field member) header extend turned := by
    dsimp only [turned]
    rw [openMember, openField]
    split <;> rfl
  refine opensAsTold_of_eq rfl hopen rfl hrecord fun t hbare => ?_
  refine .of_bare hrecord hbare rfl rfl (fun other hother => ?_) (absurd · (by decide))
  cases other with
  | field => exact absurd rfl hother
  | method => rfl

theorem openMethod_ends (header : MemberHeader) {s : Decoder} {found : Record}
    (hrecord : s.record = some found) : OpensAsTold namer .method header s := by
  -- a descriptor whose arguments cannot be told apart is refused before anything is put on record
  cases harguments : Signature.arguments header.descriptor with
  | error fault =>
    refine .inr ⟨fault, s, ?_, ?_⟩
    · rw [MemberHeader.opening, MemberHeader.member, harguments]
      rfl
    · rw [openMember, openMethod, harguments]
      rfl
  | ok arguments =>
    let member := Member.method header.access header.name header.descriptor
      (arguments.map TypeName.ofText)
    let extend (record : Record) : Record :=
      { record with
        defaultConstructor := record.defaultConstructor ||
          (header.isConstructor && header.access.isPublic && header.descriptor = "()V")
        methods := record.methods.push member }
    have hmember : header.member .method = .ok member := by
      rw [MemberHeader.member, harguments]
      rfl
    have hopen : openMember ⟨namer, none⟩ .method header s =
        putOnRecord ⟨namer, none⟩ .method (.method member) header extend s := by
      rw [openMember, openMethod, harguments]
      rfl
    refine opensAsTold_of_eq hmember hopen rfl hrecord fun t hbare => ?_
    refine .of_bare hrecord hbare rfl rfl (fun other hother => ?_) fun _ => rfl
    cases other with
    | field => rfl
    | method => exact absurd rfl hother

/-- Whether a member can be opened depends on its header and on the pool alone. -/
theorem openMember_ends (kind : LastMember) (header : MemberHeader) {s : Decoder}
    (hrecord : s.record.isSome = true) : OpensAsTold namer kind header s := by
  obtain ⟨found, hfound⟩ := Option.isSome_iff_exists.1 hrecord
  cases kind with
  | field => exact openField_ends header hfound
  | method => exact openMethod_ends header hfound

theorem question_opening (header : MemberHeader) (kind : LastMember) :
    Pool.Question (header.opening kind) := by
  have hcheck (member : Member) : Pool.Question fun pool =>
      checkDescriptor header.descriptorIndex pool >>= fun _ => .ok member :=
    (question_checkDescriptor _).bind fun _ => .pure member
  cases kind with
  | field => exact hcheck _
  | method =>
    cases harguments : Signature.arguments header.descriptor with
    | error fault =>
      have hopening : header.opening .method = fun _ => .error fault := by
        funext pool
        rw [MemberHeader.opening, MemberHeader.member, harguments]
        rfl
      rw [hopening]
      exact .throw (Signature.isInternal_of_arguments harguments)
    | ok arguments =>
      have hopening : header.opening .method = fun pool =>
          checkDescriptor header.descriptorIndex pool >>= fun _ => .ok
            (.method header.access header.name header.descriptor
              (arguments.map TypeName.ofText)) := by
        funext pool
        rw [MemberHeader.opening, MemberHeader.member, harguments]
        rfl
      rw [hopening]
      exact hcheck _

/-! ### A member alone -/

/-- What is done for a member once it was opened. -/
def afterOpening (context : Context) (kind : LastMember) (header : MemberHeader)
    (raws : List RawAttribute) : Decode Unit :=
  match kind with
  | .field => attributesOf context (pure ()) .field header.access raws
  | .method => do
    let onCode := if (← get).walking then code context else pure ()
    attributesOf context onCode (if header.isConstructor then .constructor else .method)
      header.access raws

theorem memberOf_eq (context : Context) (kind : LastMember) (raw : RawMember) :
    memberOf context kind raw = memberHeaderOf raw >>= fun header =>
      openMember context kind header >>= fun _ =>
        afterOpening context kind header raw.attributes := by
  cases kind <;> rfl

/-- It does not read. -/
theorem unfed_memberOf (context : Context) {kind : LastMember} {raw : RawMember}
    (hfits : RawMember.form.Fits raw) : Unfed .decoder (memberOf context kind raw) := by
  cases kind with
  | field => exact (Parses.field context).unfed raw hfits
  | method => exact (Parses.method context).unfed raw hfits

/-- What is done for a member concurs if bodies are walked through in both settings, or in
none. -/
theorem afterOpening_alongside {namer namer' : Namer} {pool : Pool} {a b : Decoder.Setting}
    {kind : LastMember} (hwalking : kind = .method → a.walking = b.walking)
    (header : MemberHeader) (raws : List RawAttribute) :
    Concurs (Decoder.Alongside pool a b) (afterOpening ⟨namer, none⟩ kind header raws)
      (afterOpening ⟨namer', none⟩ kind header raws) := by
  have hlocal : Local (Decoder.Alongside pool a b) := Decoder.local_alongside
  cases kind with
  | field => exact hlocal.attributesOf (Simulates.pure ()) _ _ raws
  | method =>
    intro s t hst
    have hsame : s.walking = t.walking := by
      rw [show s.walking = a.walking from congrArg Decoder.Setting.walking hst.left,
        show t.walking = b.walking from congrArg Decoder.Setting.walking hst.right, hwalking rfl]
    have hcode : Concurs (Decoder.Alongside pool a b)
        (if s.walking then code ⟨namer, none⟩ else pure ())
        (if t.walking then code ⟨namer', none⟩ else pure ()) := by
      rw [hsame]
      split
      · exact hlocal.code
      · exact Simulates.pure ()
    exact hlocal.attributesOf hcode _ _ raws s t hst

end Decode

end ClassFile
