import ClassFile.Proofs.PairedSteps
import ClassFile.Proofs.Inclusions
import ClassFile.Proofs.Ownership

/-!
# Classes abreast

Two decodings that are abreast go through the members of their classes. They may differ in whether
they walk through method bodies, and that is decided after the fields; but those that do look for
the same methods that load classes (`ClassFile.Decoder.Attention.Turned`).

The parts in which two class files differ are assumptions here: given that one decoding follows the
other through the lists of members and through the attributes of the class, it does so from the
start to the end (`ClassFile.Decode.classOf_abreast`). Up to the name of the class both do the same.
-/

namespace ClassFile

/-! ### Members -/

/-- The marks do not matter when a method is looked for. -/
theorem Pool.Like.findMethod {p q : Pool} (h : p.Like q) (method : Pool.MethodName) :
    p.findMethod method = q.findMethod method := by
  have hnames (index : UInt16) : p.namesMethod method index = q.namesMethod method index := by
    have hmethod := (Pool.Question.methodRef index).like p q h
    rw [namesMethod, namesMethod, entry, entry]
    rcases h.slot index.toNat with ⟨hp, hq⟩ | ⟨found, other, hp, hq, hsame⟩
    · rw [hp, hq]
    · rw [hp, hq]
      cases found <;> cases other <;> cases hsame
      case ref.ref.refl kind _ _ =>
        cases kind with
        | method =>
          dsimp only
          cases hp : p.methodRef index <;> cases hq : q.methodRef index <;> rw [hp, hq] at hmethod
          case ok.ok found other =>
            cases hmethod
            rfl
          all_goals first | rfl | cases hmethod
        | _ => rfl
      all_goals rfl
  rw [Pool.findMethod, Pool.findMethod, h.size]
  simp only [hnames]

theorem Pool.Like.loaders {p q : Pool} (h : p.Like q) (name : TypeName) :
    p.loaders name = q.loaders name := by
  rw [Pool.loaders, Pool.loaders, h.findMethod, h.findMethod]

/-- The record has what was gathered in the end. -/
structure Record.Gathers (found : Decoder.Gathered) (record : Record) : Prop where
  references : record.references = found.collected.references
  imports : record.imports = found.collected.imports
  api : record.api = found.collected.api

/-- What was gathered in the end is what the record says is exposed. -/
theorem Record.Gathers.mem_apiUses {found : Decoder.Gathered} {record : Record}
    (h : record.Gathers found) {package : Package} :
    package ∈ record.apiUses ↔ found.collected.Exposes package := by
  rw [Record.apiUses, h.api, Decoder.Collected.Exposes]
  cases found.collected.api with
  | none => simp
  | some packages => simp

/-- While members of a kind are read, whether the decoders walk through bodies is related. After the
fields it is settled, too, for which methods they look if they do. -/
def Decoder.Attention.Turned (W : Bool → Bool → Prop) (targets : Targets) (kind : LastMember)
    (a b : Attention) : Prop :=
  W a.walking b.walking ∧ (kind = .method →
    (a.walking = true → a.targets = targets) ∧ (b.walking = true → b.targets = targets))

namespace Decode

open Decoder

variable {namer : Namer} {pool : Pool} {G : Gathered → Gathered → Prop}
  {Q : TypeName → Record → Record → Prop} [Record.Tandem Q] {name : TypeName}
  {W : Bool → Bool → Prop} {targets : Targets}

/-- A member is opened by both if its descriptor is referred to by both, and if both are told of it,
put it on record and turn to it. A field may say that bodies have to be walked through. -/
theorem Asking.openMember {c d : Context} {P : ∀ {α : Type}, Decode α → Decode α → Prop}
    (h : Asking P) {kind : LastMember} {header : MemberHeader}
    (hrefer : P (referDescriptor c header.descriptorIndex header.access)
      (referDescriptor d header.descriptorIndex header.access))
    (htell : ∀ {event : Event}, event.isOutline = true → P (tell c event) (tell d event))
    (hput : ∀ {f : Record → Record}, Record.Widens f → P (updateRecord f) (updateRecord f))
    (hwalk : kind = .field → isClassLiteral header.name = true →
      P (modify fun s : Decoder => { s with walking := true })
        (modify fun s : Decoder => { s with walking := true }))
    (hlast : P (modify fun s : Decoder => { s with last := some kind })
      (modify fun s : Decoder => { s with last := some kind })) :
    P (openMember c kind header) (openMember d kind header) := by
  have hrest {event : Event} (hevent : event.isOutline = true) {f : Record → Record}
      (hf : Record.Widens f) := h.bind (htell hevent) fun _ => h.bind hrefer fun _ =>
    h.bind (hput hf) fun _ => hlast
  cases kind with
  | field =>
    rw [Decode.openMember, Decode.openMember, openField, openField]
    split
    · exact h.bind (hwalk rfl ‹_›) fun _ => hrest rfl (Record.widens_field _)
    · exact hrest rfl (Record.widens_field _)
  | method =>
    rw [Decode.openMember, Decode.openMember, openMethod, openMethod]
    cases harguments : Signature.arguments header.descriptor with
    | error fault => exact h.throw (Signature.isInternal_of_arguments harguments)
    | ok arguments =>
      exact h.bind (h.pure arguments) fun _ => hrest rfl (Record.widens_method _ _)

theorem openMember_last (c : Context) (kind : LastMember) (header : MemberHeader) :
    Yields (fun _ s => s.last = some kind) (openMember c kind header) := by
  have hlast : Yields (fun _ s => s.last = some kind)
      (modify fun s : Decoder => { s with last := some kind } : Decode Unit) := by
    intro s _ t hrun
    cases hrun
    rfl
  cases kind with
  | field =>
    rw [openMember, openField]
    split
    · exact .after fun _ => .after fun _ => .after fun _ => .after fun _ => hlast
    · exact .after fun _ => .after fun _ => .after fun _ => hlast
  | method =>
    rw [openMember, openMethod]
    cases Signature.arguments header.descriptor with
    | error fault =>
      intro s _ t hrun
      cases hrun
    | ok arguments =>
      exact .after fun _ => .after fun _ => .after fun _ => .after fun _ => hlast

/-- Whoever walks through bodies looks for the methods that load classes. -/
theorem prepareWalks_of_some {s : Decoder} {found : Record} (h : s.record = some found)
    (orphan : Bool) :
    let loaders := s.pool.loaders found.name
    let walking := s.walking || orphan ||
      found.major = lastMajorWithoutLiterals && loaders.forName.isSome
    prepareWalks orphan s =
      .ok () (s.attend ⟨s.last, walking, if walking then loaders else s.targets⟩) := by
  intro loaders walking
  refine EStateM.bind_eq (record_of_some h) ?_
  change EStateM.Result.ok () (if walking then _ else _) = _
  by_cases hwalking : walking = true
  · rw [if_pos hwalking, if_pos hwalking]
    rfl
  · have hstill : s.walking = walking := by
      have hnot := eq_false_of_ne_true hwalking
      simp only [walking, Bool.or_eq_false_iff] at hnot
      rw [hnot.1.1, eq_false_of_ne_true hwalking]
    rw [if_neg hwalking, if_neg hwalking, ← hstill]
    rfl

section Members

variable (hG : Gathered.Tandem namer pool G)
include hG

section Opening

variable {kind : LastMember} (hboth : kind = .field → W true true)
include hboth

/-- Both decoders turn to the next member, with the same header. What they attend to changes in the
same way on both sides. -/
theorem openMember_abreast (header : MemberHeader) :
    Concurs (InStep G Q name (Attention.Turned W targets kind))
      (openMember ⟨namer, none⟩ kind header) (openMember ⟨namer, none⟩ kind header) := by
  have hheading : Heading ⟨namer, none⟩ ⟨namer, none⟩
      (Concurs (InStep G Q name (Attention.Turned W targets kind))) := heading_abreast hG
  refine hheading.openMember (hheading.referDescriptor _ _) hheading.announce
    (fun hf => hheading.updateHeaded hf.toHeaded) (fun hkind _ => ?_) ?_
  · subst hkind
    exact Simulates.modify fun s t hst =>
      ⟨⟨hst.gathered, hst.record, hboth rfl, by simp⟩, hst.input⟩
  · exact Simulates.modify fun s t hst => ⟨⟨hst.gathered, hst.record, hst.attention⟩, hst.input⟩

/-- A member that both have is followed, if its attributes are. -/
theorem memberOf_abreast {raw : RawMember} {attributes : List RawAttribute}
    (hrest : ∀ header a b, header.access = raw.access → a.last = b.last →
      Attention.Turned W targets kind a b → Follows Eq (InStep G Q name (Attention.Are a b))
        (afterOpening ⟨namer, none⟩ kind header raw.attributes)
        (afterOpening ⟨namer, none⟩ kind header attributes)) :
    Follows Eq (InStep G Q name (Attention.Turned W targets kind)) (memberOf ⟨namer, none⟩ kind raw)
      (memberOf ⟨namer, none⟩ kind { raw with attributes }) := by
  intro s t value s' hst hrun
  rw [memberOf_eq] at hrun ⊢
  obtain ⟨header, s₁, hheader, hopens⟩ := EStateM.ok_of_bind hrun
  obtain ⟨_, s₂, hopen, hattributes⟩ := EStateM.ok_of_bind hopens
  obtain ⟨_, t₁, hheader', rfl, hst⟩ :=
    Follows.of_simulates ((naming_abreast hG).memberHeaderOf raw) hst hheader
  obtain ⟨_, t₂, hopen', rfl, hst⟩ :=
    Follows.of_simulates (openMember_abreast hG hboth header) hst hopen
  have hlast : s₂.last = t₂.last :=
    (openMember_last _ kind header _ _ _ hopen).trans
      (openMember_last _ kind header _ _ _ hopen').symm
  obtain ⟨_, t', hattributes', rfl, hst'⟩ := hrest header _ _ (memberHeaderOf_ok hheader).2.1 hlast
    hst.attention (hst.imp ⟨rfl, rfl⟩) hattributes
  refine ⟨_, t', EStateM.bind_eq hheader' (EStateM.bind_eq hopen' hattributes'), rfl, hst'.imp ?_⟩
  rw [hst'.attention.1, hst'.attention.2]
  exact hst.attention

end Opening

/-- What is said of a member is followed, if what comes of its bodies is. -/
theorem afterOpening_abreast {kind : LastMember} {header : MemberHeader} {raws : List RawAttribute}
    {a b : Attention} (hlast : a.last = b.last)
    (hcode : kind = .method → ∀ raw ∈ raws, pool.utf8 raw.name = .ok "Code" →
      Follows Eq (InStep G Q name (Attention.Are a b))
        (within raw.body (if a.walking then code ⟨namer, none⟩ else pure ()))
        (within raw.body (if b.walking then code ⟨namer, none⟩ else pure ()))) :
    Follows Eq (InStep G Q name (Attention.Are a b)) (afterOpening ⟨namer, none⟩ kind header raws)
      (afterOpening ⟨namer, none⟩ kind header raws) := by
  cases kind with
  | field => exact attributesOf_abreast hG hlast fun _ _ _ => nothing_abreast _ _
  | method =>
    refine .look fun s t hst => ?_
    rw [show s.walking = a.walking from congrArg Attention.walking hst.attention.1,
      show t.walking = b.walking from congrArg Attention.walking hst.attention.2]
    exact attributesOf_abreast hG hlast (hcode rfl)

/-- A member is followed if both decoders walk through the bodies of methods, or neither does.
Fields have no bodies. -/
theorem memberOf_same {kind : LastMember} (hboth : kind = .field → W true true)
    (hwalks : kind = .method → ∀ {a b}, W a b → a = b) (raw : RawMember) :
    Follows Eq (InStep G Q name (Attention.Turned W targets kind))
      (memberOf ⟨namer, none⟩ kind raw) (memberOf ⟨namer, none⟩ kind raw) := by
  refine memberOf_abreast hG hboth fun header a b _ hlast hturned =>
    afterOpening_abreast hG hlast fun hkind inner _ _ => ?_
  obtain ⟨hwalking, htargets⟩ := hturned
  obtain ⟨hleft, hright⟩ := htargets hkind
  rw [← hwalks hkind hwalking]
  split
  · rename_i hwalk
    have hsame := (hleft hwalk).trans (hright (hwalks hkind hwalking ▸ hwalk)).symm
    exact .of_simulates (.within sameInput_abreast (code_abreast hG hlast hsame))
  · exact nothing_abreast _ _

theorem fields_abreast (hboth : W true true) {raws : List RawMember} :
    Follows Eq (InStep G Q name (Attention.Turned W targets .field))
      (raws.forM (memberOf ⟨namer, none⟩ .field)) (raws.forM (memberOf ⟨namer, none⟩ .field)) :=
  .forM_same fun raw _ => memberOf_same hG (fun _ => hboth) (fun hkind => by cases hkind) raw

theorem methods_abreast {raws : List RawMember} :
    Follows Eq (InStep G Q name (Attention.Turned Eq targets .method))
      (raws.forM (memberOf ⟨namer, none⟩ .method)) (raws.forM (memberOf ⟨namer, none⟩ .method)) :=
  .forM_same fun raw _ => memberOf_same hG (fun _ => rfl) (fun _ _ _ h => h) raw

/-- After the fields it is decided whether the decoders walk through bodies. -/
theorem prepareWalks_abreast {X : Bool → Bool → Prop} {orphan : Bool}
    (hturn : ∀ {a b : Bool} (x : Bool), W a b → X (a || orphan || x) (b || orphan || x))
    {s t s' : Decoder} (hst : s.InStep G Q name (Attention.Turned W targets .field) t)
    (hrun : prepareWalks orphan s = .ok () s') :
    ∃ t', prepareWalks orphan t = .ok () t' ∧
      s'.InStep G Q name (Attention.Turned X (pool.loaders name) .method) t' := by
  obtain ⟨record, _, hfound, -⟩ := EStateM.ok_of_bind hrun
  have hs : s.record = some record := (ok_of_record hfound).2
  obtain ⟨other, ht, hsame⟩ := hst.record.exists_of_some hs
  rw [prepareWalks_of_some hs] at hrun
  cases hrun
  refine ⟨_, prepareWalks_of_some ht orphan, ⟨hst.gathered, hst.record, ?_⟩, hst.input⟩
  -- whoever walks looks for the same methods, for both have the same pool and class
  have hleft : s.pool.loaders name = pool.loaders name := (hG.left hst.gathered).loaders name
  have hright : t.pool.loaders name = pool.loaders name := (hG.right hst.gathered).loaders name
  rw [Record.Tandem.left hsame, Record.Tandem.right hsame, Record.Tandem.major hsame, hleft, hright]
  exact ⟨hturn _ hst.attention.1, fun _ => ⟨fun h => if_pos h, fun h => if_pos h⟩⟩

end Members

/-! ### Classes -/

/-- The record is put together in the end, on both sides from what was collected there, and so the
records are related as the collections are. -/
theorem finish_abreast {V : Attention → Attention → Prop} {s t s' : Decoder} {record : Record}
    (hst : s.InStep G Q name V t) (hrun : finish s = .ok record s') :
    ∃ other, finish t = .ok other t ∧ Q name record other ∧ G s'.gathered t.gathered ∧
      record.Gathers s'.gathered ∧ other.Gathers t.gathered := by
  obtain ⟨rfl, found, hs, rfl⟩ := ok_of_finish hrun
  obtain ⟨other, ht, hsame⟩ := hst.record.exists_of_some hs
  exact ⟨_, finish_of_some ht, Record.Tandem.besides (Record.besides_gathered _ _ _)
    (Record.besides_gathered _ _ _) hsame, hst.gathered, ⟨rfl, rfl, rfl⟩, rfl, rfl, rfl⟩

section Classes

variable (hG : Gathered.Tandem namer pool G)
include hG

/-- **All that follows the name of a class is followed**, if the members and the attributes of the
class are. -/
theorem classBodyOf_abreast {X : Bool → Bool → Prop} {orphan : Bool}
    (hturn : ∀ {a b : Bool} (x : Bool), W a b → X (a || orphan || x) (b || orphan || x))
    {raw raw' : RawBody} (hsuperclass : raw'.superclass = raw.superclass)
    (hinterfaces : raw'.interfaces = raw.interfaces)
    (hfields : Follows Eq (InStep G Q name (Attention.Turned W (pool.loaders name) .field))
      (raw.fields.forM (fieldOf ⟨namer, none⟩)) (raw'.fields.forM (fieldOf ⟨namer, none⟩)))
    (hmethods : Follows Eq (InStep G Q name (Attention.Turned X (pool.loaders name) .method))
      (raw.methods.forM (methodOf ⟨namer, none⟩)) (raw'.methods.forM (methodOf ⟨namer, none⟩)))
    (hattributes : ∀ access a b, a.last = b.last → Follows Eq (InStep G Q name (Attention.Are a b))
      (attributesOf ⟨namer, none⟩ (pure ()) .type access raw.attributes)
      (attributesOf ⟨namer, none⟩ (pure ()) .type access raw'.attributes))
    {s t s' : Decoder} {record : Record} (hst : s.InStep G Q name
      (Attention.Turned W (pool.loaders name) .field) t)
    (hrun : classBodyOf ⟨namer, none⟩ orphan raw s = .ok record s') :
    ∃ other t', classBodyOf ⟨namer, none⟩ orphan raw' t = .ok other t' ∧
      X s'.walking t'.walking ∧ Q name record other ∧ G s'.gathered t'.gathered ∧
      record.Gathers s'.gathered ∧ other.Gathers t'.gathered := by
  have hheading : Heading ⟨namer, none⟩ ⟨namer, none⟩
      (Concurs (InStep G Q name (Attention.Turned W (pool.loaders name) .field))) :=
    heading_abreast hG
  obtain ⟨head, _, _, _, _, s₅, _, hs, hsuper, hkeep, hrunFields, hprepare, hrunMethods,
    hrunAttributes, hfinish⟩ := classBodyOf_eq_ok_iff.1 hrun
  obtain ⟨other, ht, hsame⟩ := hst.record.exists_of_some hs
  rw [Record.Tandem.access hsame] at hsuper hkeep hrunAttributes
  -- the same steps from the other side
  obtain ⟨_, _, hsuper', rfl, hst⟩ :=
    Follows.of_simulates (hheading.superclassAt _ _) hst hsuper
  obtain ⟨_, _, hkeep', rfl, hst⟩ :=
    Follows.of_simulates (hheading.interfacesOf _ _) hst hkeep
  obtain ⟨_, _, hrunFields', rfl, hst⟩ := hfields hst hrunFields
  obtain ⟨_, hprepare', hst⟩ := prepareWalks_abreast hG hturn hst hprepare
  obtain ⟨_, t₅, hrunMethods', rfl, hst⟩ := hmethods hst hrunMethods
  have hwalking := hst.attention.1
  let left : Decoder := { s₅ with last := none }
  let right : Decoder := { t₅ with last := none }
  have hturned : left.InStep G Q name (Attention.Are left.attention right.attention) right :=
    ⟨⟨hst.gathered, hst.record, rfl, rfl⟩, hst.input⟩
  obtain ⟨_, t₆, hrunAttributes', rfl, hst⟩ :=
    hattributes _ left.attention right.attention rfl hturned hrunAttributes
  obtain ⟨record', hfinish', hend⟩ := finish_abreast hst hfinish
  have hwalks : s'.walking = s₅.walking := by
    rw [(ok_of_finish hfinish).1]
    exact congrArg Attention.walking hst.attention.1
  have hwalks' : t₆.walking = t₅.walking := congrArg Attention.walking hst.attention.2
  refine ⟨record', t₆, ?_, hwalks ▸ hwalks' ▸ hwalking, hend⟩
  rw [classBodyOf_eq_ok_iff, hsuperclass, hinterfaces]
  exact ⟨other, _, _, _, _, t₅, t₆, ht, hsuper', hkeep', hrunFields', hprepare', hrunMethods',
    hrunAttributes', hfinish'⟩

end Classes

end Decode

/-! ### The pool and the name of the class -/

/-- The class constant at an index is named by some reference to a member. -/
def Pool.Owned (pool : Pool) (index : UInt16) : Prop :=
  ∃ slot kind member, pool.entries[slot + 1]? = some (.ref kind index member)

/-- All class constants that are named by references to members are marked. -/
def Decoder.Gathered.Owns (pool : Pool) (found : Decoder.Gathered) : Prop :=
  ∀ index name, pool.className index = .ok name → pool.Owned index → found.pool.Marked index

theorem Decoder.Gathered.Owns.apply {pool : Pool} {found : Decoder.Gathered} (namer : Namer)
    (h : found.Owns pool) (op : Gather) : (op.apply namer found).Owns pool :=
  fun index name hname howned => Gather.marked_apply (h index name hname howned)

namespace Decode

open Decoder

variable {namer : Namer} {pool : Pool} {I : Gathered → Prop}

/-- What stays whatever is gathered is kept by the references of the pool. -/
theorem pooled_keeps (hI : ∀ op found, I found → I (Gather.apply namer op found)) :
    Pooled ⟨namer, none⟩ ⟨namer, none⟩ fun m _ =>
      Keeps (fun s => I s.gathered) (fun _ => True) m := by
  have hgather (op : Gather) :
      Keeps (fun s => I s.gathered) (fun _ => True) (op.step ⟨namer, none⟩) := by
    intro s hs
    rw [op.step_eq]
    exact hI op _ hs
  have hnaming : Naming ⟨namer, none⟩ ⟨namer, none⟩ fun m _ =>
      Keeps (fun s => I s.gathered) (fun _ => True) m :=
    { pure := .pure
      bind := .bind
      throw := fun _ => .throw trivial
      ask := fun _ => .ask fun _ _ _ => trivial
      named := fun _ => .modify fun _ hs => hs
      refer := fun type access => hgather (.refer type access) }
  exact {
    toReferring := hnaming.referring
    constant := fun index => hgather (.constant index)
    lookPool := fun hk => .look fun s => hk s s (.refl _) }

/-- The class of each reference to a member is marked when the pool is gone through. -/
theorem referPool_marks {s t : Decoder} (hlike : s.pool.Like pool)
    (hrun : referPool ⟨namer, none⟩ s = .ok () t) {index nameIndex : UInt16} {mark : Bool}
    (hclass : pool.entries[index.toNat]? = some (.classInfo nameIndex mark))
    (howned : pool.Owned index) : t.pool.Marked index := by
  obtain ⟨slot, kind, member, hentry⟩ := howned
  have hlikes (op : Gather) (found : Gathered) (h : found.pool.Like pool) :
      (op.apply namer found).pool.Like pool := (op.like_apply namer found).trans h
  have hmarks (op : Gather) (found : Gathered) (h : found.pool.Marked index) :
      (op.apply namer found).pool.Marked index := Gather.marked_apply h
  have hslot : slot + 1 ∈ (List.range s.pool.size).drop 1 := by
    have hlt : slot + 1 < s.pool.size := by
      rw [hlike.size]
      exact (Array.getElem?_eq_some_iff.1 hentry).1
    rw [List.range_eq_range', List.drop_range', List.mem_range'_1]
    omega
  have hmeets : Leads (fun u => u.gathered.pool.Like pool) (fun _ v => v.gathered.pool.Marked index)
      (referEntry ⟨namer, none⟩ (slot + 1)) := by
    intro u _ v hu hrefer
    have hfound : u.pool.entries[slot + 1]? = some (.ref kind index member) := hu.symm.ref hentry
    have hmeet : referEntry ⟨namer, none⟩ (slot + 1) u =
        (Gather.constant index).step ⟨namer, none⟩ u := by
      rw [referEntry, get_bind, hfound]
      rfl
    rw [hmeet, Gather.step_eq] at hrefer
    cases hrefer
    obtain ⟨mark, hthere⟩ := hu.symm.classInfo hclass
    exact Pool.marked_markReferred_iff.2 (.inr ⟨rfl, nameIndex, mark, hthere⟩)
  -- up to the slot the pool stays like it was, and from there on the class is marked
  exact Leads.forM_of_mem hslot (fun slot _ => ((pooled_keeps hlikes).referEntry slot).leads) hmeets
    (fun slot _ => ((pooled_keeps hmarks).referEntry slot).leads) _ _ _ hlike hrun

theorem referPool_owns {s t : Decoder} (hlike : s.pool.Like pool)
    (hrun : referPool ⟨namer, none⟩ s = .ok () t) : t.gathered.Owns pool := by
  intro index name hname howned
  obtain ⟨nameIndex, mark, hclass, -⟩ := Pool.entry_of_className hname
  exact referPool_marks hlike hrun hclass howned

theorem openClass_abreast {G : Gathered → Gathered → Prop} (hG : Gathered.Tandem namer pool G)
    {Q : TypeName → Record → Record → Prop} [Record.Tandem Q]
    (hrefl : ∀ record, Q record.name record record)
    (hapi : ∀ {found other} api, G found other →
      G ⟨found.pool, { found.collected with api }⟩ ⟨other.pool, { other.collected with api }⟩)
    {V : Attention → Attention → Prop} (record : Record) :
    Concurs (InStep G Q record.name V) (openClass ⟨namer, none⟩ record)
      (openClass ⟨namer, none⟩ record) := by
  refine Simulates.bind (Simulates.modify fun s t hst => ?_) fun _ =>
    Simulates.bind (gather_abreast hG (.refer record.name Access.publicBit)) fun _ =>
      Simulates.modify fun s t hst => ?_
  · exact ⟨⟨hapi _ hst.gathered, hst.record, hst.attention⟩, hst.input⟩
  · exact hst.withRecord (.some (hrefl record))

/-- If there is no orphan, all class constants are marked. -/
theorem complete_of_hasOrphan {pool other : Pool} (hlike : other.Like pool)
    (h : other.hasOrphan = false) {index : UInt16} {name : String}
    (hname : pool.className index = .ok name) : other.Marked index := by
  obtain ⟨nameIndex, mark, hentry, -⟩ :=
    Pool.entry_of_className ((Pool.Question.className index).ok_of_like hlike.symm hname)
  cases mark with
  | true => exact ⟨nameIndex, hentry⟩
  | false =>
    have hany := Array.any_eq_false'.1 h _ (Array.mem_of_getElem? hentry)
    exact absurd rfl hany

/-- What is known of a decoding that has come to the name of the class: what it has gathered, and
that class constants are marked. -/
structure Opens (namer : Namer) (start : Gathered) (orphan : Bool) (found : Gathered) : Prop where
  comes : Gathered.Comes namer start found
  owns : found.Owns start.pool
  complete : orphan = false → found.Complete start.pool

theorem Opens.apply {start found : Gathered} {orphan : Bool} (h : Opens namer start orphan found)
    (op : Gather) : Opens namer start orphan (op.apply namer found) :=
  ⟨h.comes.apply op, h.owns.apply namer op, fun horphan => (h.complete horphan).apply op⟩

theorem Opens.withApi {start found : Gathered} {orphan : Bool} (h : Opens namer start orphan found)
    (api : Option PackageSet) :
    Opens namer start orphan ⟨found.pool, { found.collected with api := api }⟩ :=
  ⟨h.comes.withApi api, h.owns, h.complete⟩

/-- Two decodings that gather the same know the same when the name of the class comes, which is
where they begin to be compared. -/
theorem Opens.tandem (namer : Namer) (start : Gathered) (orphan : Bool) :
    Gathered.Tandem namer start.pool fun found other =>
      found = other ∧ Opens namer start orphan found where
  left h := h.2.comes.like
  right h := h.1 ▸ h.2.comes.like
  both op h := ⟨congrArg (op.apply namer) h.1, h.2.apply op⟩

/-- **Up to the name of the class** two decodings do the same, if they start with the same. -/
theorem classHeaderOf_abreast {Q : TypeName → Record → Record → Prop} [Record.Tandem Q]
    (hrefl : ∀ record, Q record.name record record) {raw : RawHeader} {s t s' : Decoder}
    {header : Record × Bool}
    (hinput : s.input = t.input) (hcollected : s.collected = t.collected) (hs : s.record = none)
    (ht : t.record = none) (hrun : classHeaderOf ⟨namer, none⟩ raw s = .ok header s') :
    ∃ t', classHeaderOf ⟨namer, none⟩ raw t = .ok header t' ∧
      (∃ name, raw.constants.className raw.name = .ok name ∧ .ofText name = header.1.name) ∧
      s'.InStep (fun found other => found = other ∧
          Opens namer ⟨raw.constants, s.collected⟩ header.2 found) Q
        header.1.name (Attention.Are s.attention t.attention) t' := by
  let start : Gathered := ⟨raw.constants, s.collected⟩
  let same (found other : Gathered) : Prop := found = other ∧ Gathered.Comes namer start found
  have hsame : Gathered.Tandem namer raw.constants same := Gathered.Comes.tandem namer start
  let left : Decoder := { s with pool := raw.constants }
  let right : Decoder := { t with pool := raw.constants }
  obtain ⟨s₁, name, hpool, hname, rfl, hopen⟩ := classHeaderOf_eq_ok_iff.1 hrun
  have hst : left.InStep same Q (.ofText name) (Attention.Are s.attention t.attention) right := by
    refine ⟨⟨⟨congrArg (Gathered.mk raw.constants) hcollected, .refl⟩, ?_, rfl, rfl⟩, hinput⟩
    change Option.Rel _ s.record t.record
    rw [hs, ht]
    exact .none
  -- going through the pool marks class constants, and only then is it known whether there is an
  -- orphan
  obtain ⟨_, t₁, hpool', rfl, hst⟩ :=
    Follows.of_simulates (pooled_abreast hsame).referPool hst hpool
  have hpools : s₁.pool = t₁.pool := congrArg Gathered.pool hst.gathered.1
  have hopens : Opens namer start s₁.pool.hasOrphan s₁.gathered :=
    ⟨hst.gathered.2, referPool_owns (.refl _) hpool, fun horphan _ _ hname =>
      complete_of_hasOrphan hst.gathered.2.like horphan hname⟩
  have hst : s₁.InStep
      (fun found other => found = other ∧ Opens namer start s₁.pool.hasOrphan found) Q
      (.ofText name) (Attention.Are s.attention t.attention) t₁ :=
    ⟨⟨⟨hst.gathered.1, hopens⟩, hst.record, hst.attention⟩, hst.input⟩
  have hboth := Opens.tandem namer start s₁.pool.hasOrphan
  obtain ⟨_, t₃, hopen', rfl, hst⟩ := Follows.of_simulates
    (openClass_abreast (V := Attention.Are s.attention t.attention) hboth hrefl
      (fun api h => ⟨congrArg (fun found : Gathered =>
        Gathered.mk found.pool { found.collected with api }) h.1, h.2.withApi api⟩) _)
    hst hopen
  have hlike : s₁.pool.Like raw.constants := hopens.comes.like
  refine ⟨t₃, ?_, ⟨name, (Pool.Question.className raw.name).ok_of_like hlike hname, rfl⟩, hst⟩
  rw [hpools] at hname ⊢
  exact classHeaderOf_eq_ok_iff.2 ⟨t₁, name, hpool', hname, rfl, hopen'⟩

/-- **The decoding of a class is followed**, if those of its members and its attributes are. What is
related may depend on whether there is an orphan among the class constants, for then both decodings
walk through method bodies. -/
theorem classOf_abreast {G : Bool → Gathered → Gathered → Prop} {W : Bool → Bool → Prop}
    {X : Bool → Bool → Bool → Prop} {Q : TypeName → Record → Record → Prop} [Record.Tandem Q]
    (hrefl : ∀ record, Q record.name record record) {layout : Layout} (layout' : Layout)
    {s t s' : Decoder} {record : Record}
    (hG : ∀ orphan, Gathered.Tandem namer layout.constants (G orphan))
    (hturn : ∀ {orphan a b : Bool} (x : Bool), W a b →
      X orphan (a || orphan || x) (b || orphan || x))
    (hheader : layout'.toRawHeader = layout.toRawHeader)
    (hsuperclass : layout'.superclass = layout.superclass)
    (hinterfaces : layout'.interfaces = layout.interfaces)
    (hfields : ∀ orphan name, layout.constants.className layout.name = .ok name →
      Follows Eq (InStep (G orphan) Q (.ofText name)
          (Attention.Turned W (layout.constants.loaders (.ofText name)) .field))
        (layout.fields.forM (fieldOf ⟨namer, none⟩)) (layout'.fields.forM (fieldOf ⟨namer, none⟩)))
    (hmethods : ∀ orphan name, layout.constants.className layout.name = .ok name →
      Follows Eq (InStep (G orphan) Q (.ofText name)
          (Attention.Turned (X orphan) (layout.constants.loaders (.ofText name)) .method))
        (layout.methods.forM (methodOf ⟨namer, none⟩))
        (layout'.methods.forM (methodOf ⟨namer, none⟩)))
    (hattributes : ∀ orphan name access a b, a.last = b.last →
      Follows Eq (InStep (G orphan) Q name (Attention.Are a b))
        (attributesOf ⟨namer, none⟩ (pure ()) .type access layout.attributes)
        (attributesOf ⟨namer, none⟩ (pure ()) .type access layout'.attributes))
    (hstart : ∀ orphan found, Opens namer ⟨layout.constants, s.collected⟩ orphan found →
      G orphan found found)
    (hinput : s.input = t.input) (hcollected : s.collected = t.collected) (hs : s.record = none)
    (ht : t.record = none) (hwalking : W s.walking t.walking)
    (hrun : classOf ⟨namer, none⟩ layout s = .ok record s') :
    ∃ orphan name other t', classOf ⟨namer, none⟩ layout' t = .ok other t' ∧
      X orphan s'.walking t'.walking ∧ Q name record other ∧ G orphan s'.gathered t'.gathered ∧
      record.Gathers s'.gathered ∧ other.Gathers t'.gathered := by
  obtain ⟨⟨head, orphan⟩, s₁, hhead, hbody⟩ := EStateM.ok_of_bind hrun
  obtain ⟨t₁, hhead', ⟨name, hname, hnamed⟩, hst⟩ :=
    classHeaderOf_abreast hrefl hinput hcollected hs ht hhead
  rw [← hnamed] at hst
  -- they have gathered the same so far, which is where `G` starts from
  have hturned : s₁.InStep (G orphan) Q (.ofText name)
      (Attention.Turned W (layout.constants.loaders (.ofText name)) .field) t₁ := by
    have hgathered := hst.gathered
    refine ⟨⟨?_, hst.record, ?_, nofun⟩, hst.input⟩
    · rw [← hgathered.1]
      exact hstart orphan _ hgathered.2
    · rw [hst.attention.1, hst.attention.2]
      exact hwalking
  obtain ⟨other, t', hbody', hend⟩ := classBodyOf_abreast (hG orphan) hturn hsuperclass hinterfaces
    (hfields orphan _ hname) (hmethods orphan _ hname) (hattributes orphan _) hturned hbody
  refine ⟨orphan, .ofText name, other, t', ?_, hend⟩
  rw [classOf, hheader]
  exact EStateM.bind_eq hhead' hbody'

end Decode

end ClassFile
