import ClassFile.Proofs.WalkDecision

/-!
# Going through the pool

When a pool has been read, the decoder goes through its slots once, and this is all that marks class
constants. Afterwards a class constant is marked if and only if some reference to a member names its
slot, and the pool is otherwise as it was; what was referred to are the types that the marked
constants and the descriptors mention, as far as they can be referred to
(`ClassFile.Decode.referPool_resolves`).

The loop changes the pool that it reads, so the invariant is about the slots that have been visited
(`ClassFile.Decoder.Resolves`): a constant is marked if one of *them* names it, and what they
mention has been referred to. A constant that is named again is not referred to again, which does no
harm, for it has been visited before.

Whether a type can be referred to is answered by the namer, whose table changes meanwhile. Every
type that is mentioned was asked for, and a steady namer does not change its mind about such a type,
so it can be asked at the end of the loop instead. If the package is one that the namer fixes, it
can be asked before the loop, and then the order of the slots does not matter.
-/

namespace ClassFile

/-! ### What the slots of a pool name -/

namespace Pool

/-- In this place there is a reference to a member of the class in that slot. -/
def Cites (pool : Pool) (place slot : Nat) : Prop :=
  ∃ (kind : RefKind) (owner member : UInt16),
    pool.entries[place]? = some (.ref kind owner member) ∧ owner.toNat = slot

/-- The entry in this place names the type: by its class, or in its descriptor. -/
inductive Reports (pool : Pool) (place : Nat) : TypeName → Prop where
  | ref {kind : RefKind} {owner member : UInt16} {name : String} :
    pool.entries[place]? = some (.ref kind owner member) → pool.className owner = .ok name →
    Reports pool place (.ofText name)
  | nameAndType {index descriptor : UInt16} {text name : String} :
    pool.entries[place]? = some (.nameAndType index descriptor) → pool.utf8 descriptor = .ok text →
    name ∈ (Signature.scan text).names → Reports pool place (.ofText name)

/-- A pool mentions the types that its marked class constants and its descriptors name. -/
inductive Mentions (pool : Pool) : TypeName → Prop where
  | constant {slot : Nat} {index : UInt16} {name : String} :
    pool.entries[slot]? = some (.classInfo index true) → pool.utf8 index = .ok name →
    Mentions pool (.ofText name)
  | descriptor {slot : Nat} {index descriptor : UInt16} {text name : String} :
    pool.entries[slot]? = some (.nameAndType index descriptor) → pool.utf8 descriptor = .ok text →
    name ∈ (Signature.scan text).names → Mentions pool (.ofText name)

section Places

variable {pool : Pool} {place slot : Nat} {kind : RefKind} {owner member index descriptor : UInt16}

theorem cites_iff_of_ref (hentry : pool.entries[place]? = some (.ref kind owner member)) :
    pool.Cites place slot ↔ owner.toNat = slot := by
  refine ⟨?_, fun hslot => ⟨kind, owner, member, hentry, hslot⟩⟩
  rintro ⟨_, _, _, hfound, hslot⟩
  cases hentry.symm.trans hfound
  exact hslot

theorem reports_iff_of_ref (hentry : pool.entries[place]? = some (.ref kind owner member))
    (type : TypeName) :
    pool.Reports place type ↔ ∃ name, pool.className owner = .ok name ∧ type = .ofText name := by
  constructor
  · rintro (⟨hfound, hname⟩ | ⟨hfound, -, -⟩)
    · cases hentry.symm.trans hfound
      exact ⟨_, hname, rfl⟩
    · cases hentry.symm.trans hfound
  · rintro ⟨name, hname, rfl⟩
    exact .ref hentry hname

theorem reports_iff_of_nameAndType {text : String}
    (hentry : pool.entries[place]? = some (.nameAndType index descriptor))
    (htext : pool.utf8 descriptor = .ok text) (type : TypeName) :
    pool.Reports place type ↔ ∃ name ∈ (Signature.scan text).names, type = .ofText name := by
  constructor
  · rintro (⟨hfound, -⟩ | ⟨hfound, hsame, hname⟩)
    · cases hentry.symm.trans hfound
    · cases hentry.symm.trans hfound
      cases htext.symm.trans hsame
      exact ⟨_, hname, rfl⟩
  · rintro ⟨name, hname, rfl⟩
    exact .nameAndType hentry htext hname

theorem not_cites (hentry : ∀ kind owner member,
    pool.entries[place]? ≠ some (.ref kind owner member)) (slot : Nat) : ¬pool.Cites place slot :=
  fun ⟨kind, owner, member, hfound, _⟩ => hentry kind owner member hfound

end Places

theorem hasOrphan_iff {pool : Pool} : pool.hasOrphan = true ↔
    ∃ (slot : Nat) (name : UInt16), pool.entries[slot]? = some (.classInfo name false) := by
  constructor
  · intro h
    obtain ⟨entry, hmem, hplain⟩ := Array.any_eq_true'.1 h
    cases entry with
    | classInfo name mark =>
      cases mark with
      | true => cases hplain
      | false =>
        obtain ⟨slot, hentry⟩ := Array.getElem?_of_mem hmem
        exact ⟨slot, name, hentry⟩
    | _ => cases hplain
  · rintro ⟨slot, name, hentry⟩
    exact Array.any_eq_true'.2 ⟨_, Array.mem_of_getElem? hentry, rfl⟩

/-- Only class constants are marked, and only the one that is met. -/
theorem markReferred_marked_iff {pool : Pool} {index : UInt16} {slot : Nat} {name : UInt16} :
    (pool.markReferred index).2.entries[slot]? = some (.classInfo name true) ↔
      pool.entries[slot]? = some (.classInfo name true) ∨
        index.toNat = slot ∧ ∃ mark, pool.entries[slot]? = some (.classInfo name mark) := by
  by_cases hsame : index.toNat = slot
  · subst hsame
    rw [and_iff_right rfl, or_iff_right_of_imp fun h => ⟨true, h⟩, markReferred]
    split
    · rename_i found hentry
      have hlt : index.toNat < pool.entries.size := (Array.getElem?_eq_some_iff.1 hentry).1
      rw [Array.getElem?_setIfInBounds_self, if_pos hlt, hentry]
      simp
    · rename_i hentry
      refine ⟨fun h => ⟨true, h⟩, ?_⟩
      rintro ⟨mark, hmark⟩
      cases mark with
      | true => exact hmark
      | false => exact absurd hmark (hentry name)
  · rw [getElem?_markReferred_of_ne hsame, or_iff_left fun h => hsame h.1]

end Pool

/-! ### What is referred to -/

/-- Whoever listens does nothing to the table of packages but ask the namer for more of them. -/
def Context.Polite (context : Context) : Prop :=
  ∀ listener ∈ context.listener, ∀ notes event session,
    context.namer.Reaches session.table (listener.hears notes event session).1.table

theorem Context.polite_of_none (namer : Namer) : Context.Polite ⟨namer, none⟩ := nofun

namespace Decoder

/-- On the way from one decoder to another the types that are named were referred to, as far as they
can be, and no others. -/
structure RefersTo (namer : Namer) (named : TypeName → Prop) (s t : Decoder) : Prop where
  reaches : namer.Reaches s.session.table t.session.table
  asked : ∀ mention, named mention → mention.referent.isPrimitive = false →
    t.collected.Asked namer mention.referent
  references : ∀ type, type ∈ t.references ↔ type ∈ s.references ∨
    ∃ mention, named mention ∧ t.collected.Takes namer mention ∧ mention.referent = type

namespace RefersTo

variable {namer : Namer} {named others : TypeName → Prop} {s t u : Decoder}

theorem congr (h : s.RefersTo namer named t) (hsame : ∀ mention, named mention ↔ others mention) :
    s.RefersTo namer others t := by
  rwa [show others = named from funext fun mention => propext (hsame mention).symm]

/-- Nothing is named where nothing is referred to. -/
theorem of_references_eq (hreaches : namer.Reaches s.session.table t.session.table)
    (h : t.references = s.references) : s.RefersTo namer (fun _ => False) t where
  reaches := hreaches
  asked _ hnamed := hnamed.elim
  references type := by rw [h, or_iff_left fun ⟨_, hnamed, _⟩ => hnamed]

/-- The namer does not change its mind about a type that it was asked for. -/
theorem takes_iff (hsteady : namer.Steady) (h : s.RefersTo namer named t)
    (hlater : namer.Reaches t.session.table u.session.table) {mention : TypeName}
    (hnamed : named mention) :
    u.collected.Takes namer mention ↔ t.collected.Takes namer mention := by
  refine and_congr_right fun hprimitive => ?_
  have hkept : namer.Reaches t.collected.session.table u.collected.session.table := hlater
  rw [(h.asked mention hnamed hprimitive).packageOf_eq hsteady hkept]

theorem trans (hsteady : namer.Steady) (h : s.RefersTo namer named t)
    (h' : t.RefersTo namer others u) :
    s.RefersTo namer (fun mention => named mention ∨ others mention) u where
  reaches := h.reaches.trans h'.reaches
  asked mention hnamed hprimitive := hnamed.elim
    (fun hfirst => (h.asked mention hfirst hprimitive).later h'.reaches)
    fun hsecond => h'.asked mention hsecond hprimitive
  references type := by
    have hfirst : (∃ mention, named mention ∧ t.collected.Takes namer mention ∧
          mention.referent = type) ↔
        ∃ mention, named mention ∧ u.collected.Takes namer mention ∧ mention.referent = type :=
      exists_congr fun mention => and_congr_right fun hnamed =>
        and_congr_left' (h.takes_iff hsteady h'.reaches hnamed).symm
    rw [h'.references, h.references, hfirst, or_assoc, ← exists_or]
    refine or_congr_right (exists_congr fun mention => ?_)
    rw [or_and_right]

end RefersTo

end Decoder

namespace Decode

open Decoder

/-- The step refers to the types that are named, as far as it can, and leaves the pool as it is. -/
def Mentioning (context : Context) (named : TypeName → Prop) (m : Decode Unit) : Prop :=
  ∀ s t, m s = .ok () t → t.pool = s.pool ∧ s.RefersTo context.namer named t

namespace Mentioning

variable {context : Context} {named others : TypeName → Prop} {m : Decode Unit}

theorem congr (h : Mentioning context named m) (hsame : ∀ mention, named mention ↔ others mention) :
    Mentioning context others m := by
  intro s t hrun
  obtain ⟨hpool, hrefers⟩ := h s t hrun
  exact ⟨hpool, hrefers.congr hsame⟩

theorem pure : Mentioning context (fun _ => False) (Pure.pure ()) := by
  intro s t hrun
  cases hrun
  exact ⟨rfl, .of_references_eq (.refl _) rfl⟩

theorem bind (hsteady : context.namer.Steady) {f : Unit → Decode Unit}
    (hm : Mentioning context named m) (hf : ∀ u, Mentioning context others (f u)) :
    Mentioning context (fun mention => named mention ∨ others mention) (m >>= f) := by
  intro s u hrun
  obtain ⟨_, t, hfirst, hrest⟩ := EStateM.ok_of_bind hrun
  obtain ⟨hpool, hrefers⟩ := hm s t hfirst
  obtain ⟨hpool', hrefers'⟩ := hf () t u hrest
  exact ⟨hpool'.trans hpool, hrefers.trans hsteady hrefers'⟩

variable (hpolite : context.Polite)
include hpolite

theorem told (event : Event) (s : Decoder) :
    (s.told context event).pool = s.pool ∧
      s.RefersTo context.namer (fun _ => False) (s.told context event) := by
  obtain ⟨namer, listener⟩ := context
  cases listener with
  | none => exact ⟨rfl, .of_references_eq (.refl _) rfl⟩
  | some listener => exact ⟨rfl, .of_references_eq (hpolite listener rfl _ _ _) rfl⟩

theorem tell (event : Event) : Mentioning context (fun _ => False) (tell context event) := by
  intro s t hrun
  cases hrun
  exact told hpolite event s

variable (hsteady : context.namer.Steady)
include hsteady

theorem refer (type : TypeName) (access : Access) :
    Mentioning context (· = type) (refer context type access) := by
  intro s t hrun
  -- the step itself, before anybody is told of it
  have hcollects : s.RefersTo context.namer (· = type)
      (s.withCollected (s.collected.refer context.namer type access)) := by
    have htable : (s.collected.refer context.namer type access).session.table = _ :=
      Collected.table_refer type access s.collected
    have hasked (hprimitive : type.referent.isPrimitive = false) :
        (s.collected.refer context.namer type access).Asked context.namer type.referent := by
      rw [if_neg (ne_true_of_eq_false hprimitive)] at htable
      exact ⟨s.session.table, htable ▸ .refl _⟩
    have htakes : (s.collected.refer context.namer type access).Takes context.namer type ↔
        s.collected.Takes context.namer type := by
      refine and_congr_right fun hprimitive => ?_
      rw [if_neg (ne_true_of_eq_false hprimitive)] at htable
      rw [htable, hsteady _ _ _ (.refl _)]
    refine ⟨Collected.reaches_refer type access s.collected, ?_, fun other => ?_⟩
    · rintro mention rfl hprimitive
      rw [collected_withCollected]
      exact hasked hprimitive
    · refine (Collected.mem_references_refer access).trans (or_congr_right ?_)
      rw [exists_eq_left, ← htakes]
      rfl
  rw [refer_told] at hrun
  split at hrun
  · cases hrun
    obtain ⟨hpool, hrefers⟩ := told hpolite (.referred type.referent access)
      (s.withCollected (s.collected.refer context.namer type access))
    refine ⟨hpool, (hcollects.trans hsteady hrefers).congr fun mention => ?_⟩
    exact or_iff_left id
  · cases hrun
    exact ⟨rfl, hcollects⟩

theorem mention (access : Access) (name : String) :
    Mentioning context (· = .ofText name) (mention context access name) :=
  ((tell hpolite _).bind hsteady fun _ => refer hpolite hsteady _ access).congr fun _ =>
    or_iff_right id

theorem mentions (access : Access) (names : List String) :
    Mentioning context (fun mention => ∃ name ∈ names, mention = .ofText name)
      (names.forM (Decode.mention context access)) := by
  induction names with
  | nil => exact pure.congr fun _ => by simp
  | cons name names ih =>
    refine ((mention hpolite hsteady access name).bind hsteady fun _ => ih).congr fun _ => ?_
    rw [List.exists_mem_cons_iff]

/-- A descriptor that is well formed refers to all the classes in it. -/
theorem referText (text : String) (access : Access) :
    Mentioning context (fun mention => ∃ name ∈ (Signature.scan text).names, mention = .ofText name)
      (referText context text access) := by
  rw [Decode.referText]
  refine ((mentions hpolite hsteady access _).bind hsteady fun _ =>
    (?_ : Mentioning context (fun _ => False) _)).congr fun _ => or_iff_left id
  cases (Signature.scan text).fault with
  | none => exact pure
  | some fault =>
    intro s t hrun
    cases hrun

end Mentioning

/-! ### One place after the other -/

/-- What is done depends on the entry. -/
theorem referEntry_run (context : Context) (place : Nat) (s : Decoder) :
    referEntry context place s =
      match s.pool.entries[place]? with
      | some (.ref _ owner _) => referClassConstant context owner s
      | some (.nameAndType _ descriptor) => referDescriptor context descriptor 0 s
      | _ => .ok () s := by
  rw [referEntry, get_bind]
  rcases s.pool.entries[place]? with _ | entry
  · rfl
  · cases entry <;> rfl

end Decode

/-- What has come of the places that were visited: the class constants that they cite are marked,
and the types that they report were referred to. -/
structure Decoder.Resolves (namer : Namer) (start : Decoder) (places : List Nat) (s : Decoder) :
    Prop where
  like : s.pool.Like start.pool
  marked : ∀ (slot : Nat) (name : UInt16), s.pool.entries[slot]? = some (.classInfo name true) ↔
    (∃ mark, start.pool.entries[slot]? = some (.classInfo name mark)) ∧
      ∃ place ∈ places, start.pool.Cites place slot
  refers : start.RefersTo namer (fun type => ∃ place ∈ places, start.pool.Reports place type) s

namespace Decoder.Resolves

open Decode

variable {context : Context} {start s t : Decoder} {places : List Nat} {place : Nat}

/-- Before the first place is visited nothing is marked. -/
theorem nil (hfresh : ∀ (slot : Nat) (name : UInt16),
    start.pool.entries[slot]? ≠ some (.classInfo name true)) :
    start.Resolves context.namer [] start where
  like := .refl _
  marked slot name := by
    refine ⟨fun h => absurd h (hfresh slot name), ?_⟩
    rintro ⟨-, place, hplace, -⟩
    exact absurd hplace List.not_mem_nil
  refers := (RefersTo.of_references_eq (.refl _) rfl).congr fun _ => by simp

/-- The next place has its constant marked, and what it reports is referred to unless that was done
before. -/
theorem cons (hsteady : context.namer.Steady) {named : TypeName → Prop}
    (h : start.Resolves context.namer places s) (hlike : t.pool.Like s.pool)
    (hmarked : ∀ (slot : Nat) (name : UInt16),
      t.pool.entries[slot]? = some (.classInfo name true) ↔
        s.pool.entries[slot]? = some (.classInfo name true) ∨
          (∃ mark, s.pool.entries[slot]? = some (.classInfo name mark)) ∧
            start.pool.Cites place slot)
    (hrefers : s.RefersTo context.namer named t)
    (hsound : ∀ type, named type → start.pool.Reports place type)
    (hcomplete : ∀ type, start.pool.Reports place type →
      named type ∨ ∃ place ∈ places, start.pool.Reports place type) :
    start.Resolves context.namer (place :: places) t where
  like := hlike.trans h.like
  marked slot name := by
    have hclass : (∃ mark, s.pool.entries[slot]? = some (.classInfo name mark)) ↔
        ∃ mark, start.pool.entries[slot]? = some (.classInfo name mark) :=
      ⟨fun ⟨_, hentry⟩ => h.like.classInfo hentry, fun ⟨_, hentry⟩ => h.like.symm.classInfo hentry⟩
    rw [hmarked, h.marked, hclass, ← and_or_left, List.exists_mem_cons_iff, or_comm]
  refers := (h.refers.trans hsteady hrefers).congr fun type => by
    rw [List.exists_mem_cons_iff]
    constructor
    · exact fun hnamed => hnamed.elim .inr fun hnew => .inl (hsound type hnew)
    · exact fun hreports => hreports.elim (fun hnew => (hcomplete type hnew).symm) .inl

/-- A place without a reference to a member leaves the pool as it is. -/
theorem cons_of_pool_eq (hsteady : context.namer.Steady)
    (h : start.Resolves context.namer places s) (hpool : t.pool = s.pool)
    (hrefers : s.RefersTo context.namer (start.pool.Reports place) t)
    (hplain : ∀ slot, ¬start.pool.Cites place slot) :
    start.Resolves context.namer (place :: places) t := by
  refine h.cons hsteady (hpool ▸ .refl _) (fun slot name => ?_) hrefers (fun _ => id) fun _ => .inl
  rw [hpool, or_iff_left fun hcites => hplain slot hcites.2]

/-- A class constant that is marked was reported by a place that was visited. -/
theorem reported_of_marked (h : start.Resolves context.namer places s) {owner : UInt16}
    (hmarked : s.pool.Marked owner) {name : String} (hname : s.pool.className owner = .ok name) :
    ∃ place ∈ places, start.pool.Reports place (.ofText name) := by
  obtain ⟨index, hbefore⟩ := hmarked
  obtain ⟨-, place, hplace, kind, owner', member, hfound, hsame⟩ :=
    (h.marked owner.toNat index).1 hbefore
  obtain rfl := UInt16.toNat_inj.1 hsame
  exact ⟨place, hplace, .ref hfound ((Pool.Question.className owner').ok_of_like h.like hname)⟩

section Step

variable (hsteady : context.namer.Steady) (hpolite : context.Polite)
include hsteady hpolite

/-- A reference to a member has its class marked. If the class was marked before, then another place
that was visited has reported it. -/
theorem cons_of_ref {kind : RefKind} {owner member : UInt16}
    (h : start.Resolves context.namer places s)
    (hentry : start.pool.entries[place]? = some (.ref kind owner member))
    (hrun : referClassConstant context owner s = .ok () t) :
    start.Resolves context.namer (place :: places) t := by
  have hclass (name : String) : start.pool.className owner = .ok name ↔
      s.pool.className owner = .ok name :=
    ⟨(Pool.Question.className owner).ok_of_like h.like.symm,
      (Pool.Question.className owner).ok_of_like h.like⟩
  have hreports (type : TypeName) : start.pool.Reports place type ↔
      ∃ name, s.pool.className owner = .ok name ∧ type = .ofText name := by
    simp only [Pool.reports_iff_of_ref hentry, hclass]
  -- the constant is marked first
  rw [referClassConstant_eq] at hrun
  obtain ⟨name?, middle, hmark, hrefer⟩ := EStateM.ok_of_bind hrun
  cases hmark
  have hmarking : s.RefersTo context.namer (fun _ => False)
      { s with pool := (s.pool.markReferred owner).2 } := .of_references_eq (.refl _) rfl
  have hmarked (slot : Nat) (name : UInt16) :
      (s.pool.markReferred owner).2.entries[slot]? = some (.classInfo name true) ↔
        s.pool.entries[slot]? = some (.classInfo name true) ∨
          (∃ mark, s.pool.entries[slot]? = some (.classInfo name mark)) ∧
            start.pool.Cites place slot := by
    rw [Pool.markReferred_marked_iff, Pool.cites_iff_of_ref hentry, and_comm]
  cases hfirst : (s.pool.markReferred owner).1 with
  | some name =>
    rw [hfirst] at hrefer
    obtain ⟨hpool, hrefers⟩ := Mentioning.refer hpolite hsteady (.ofText name) 0
      { s with pool := (s.pool.markReferred owner).2 } t hrefer
    have hname := (Pool.markReferred_eq_some_iff.1 hfirst).2
    refine h.cons hsteady (hpool ▸ Pool.like_markReferred _ _) (hpool ▸ hmarked)
      (hmarking.trans hsteady hrefers) ?_ ?_
    · rintro type (hno | rfl)
      · exact hno.elim
      · exact (hreports _).2 ⟨name, hname, rfl⟩
    · intro type htype
      obtain ⟨other, hother, rfl⟩ := (hreports type).1 htype
      cases hname.symm.trans hother
      exact .inl (.inr rfl)
  | none =>
    rw [hfirst] at hrefer
    cases hrefer
    refine h.cons hsteady (Pool.like_markReferred _ _) hmarked hmarking (fun _ => False.elim)
      fun type htype => .inr ?_
    obtain ⟨name, hname, rfl⟩ := (hreports type).1 htype
    refine h.reported_of_marked (by_contra fun hunmarked => ?_) hname
    cases hfirst.symm.trans (Pool.markReferred_eq_some_iff.2 ⟨hunmarked, hname⟩)

/-- The classes that are named in a descriptor are referred to. -/
theorem cons_of_nameAndType {index descriptor : UInt16}
    (h : start.Resolves context.namer places s)
    (hentry : start.pool.entries[place]? = some (.nameAndType index descriptor))
    (hrun : referDescriptor context descriptor 0 s = .ok () t) :
    start.Resolves context.namer (place :: places) t := by
  obtain ⟨text, _, htext, hrefer⟩ := EStateM.ok_of_bind hrun
  obtain ⟨htext, rfl⟩ := ok_of_utf8 htext
  have hstart := (Pool.Question.utf8 descriptor).ok_of_like h.like htext
  obtain ⟨hpool, hrefers⟩ := Mentioning.referText hpolite hsteady text 0 _ _ hrefer
  have hreports := Pool.reports_iff_of_nameAndType hentry hstart
  refine h.cons_of_pool_eq hsteady hpool (hrefers.congr fun type => (hreports type).symm)
    (Pool.not_cites fun kind owner member hfound => ?_)
  cases hentry.symm.trans hfound

/-- **A step of the loop** resolves the place that it visits. -/
theorem step (h : start.Resolves context.namer places s)
    (hrun : referEntry context place s = .ok () t) :
    start.Resolves context.namer (place :: places) t := by
  rw [referEntry_run] at hrun
  split at hrun
  case h_1 kind owner member hentry =>
    exact h.cons_of_ref hsteady hpolite (h.like.ref hentry) hrun
  case h_2 index descriptor hentry =>
    exact h.cons_of_nameAndType hsteady hpolite (h.like.nameAndType hentry) hrun
  case h_3 href htype =>
    cases hrun
    refine h.cons_of_pool_eq hsteady rfl ?_
      (Pool.not_cites fun _ _ _ hfound => href _ _ _ (h.like.symm.ref hfound))
    refine (RefersTo.of_references_eq (.refl _) rfl).congr fun type => ⟨False.elim, ?_⟩
    rintro (⟨hfound, -⟩ | ⟨hfound, -, -⟩)
    · exact href _ _ _ (h.like.symm.ref hfound)
    · exact htype _ _ (h.like.symm.nameAndType hfound)

/-- **A run of the loop** resolves all the places that it visits. -/
theorem run {rest : List Nat} (h : start.Resolves context.namer places s)
    (hrun : rest.forM (referEntry context) s = .ok () t) :
    start.Resolves context.namer (rest.reverse ++ places) t := by
  induction rest generalizing places s with
  | nil =>
    cases hrun
    exact h
  | cons place rest ih =>
    obtain ⟨_, middle, hfirst, hrest⟩ := EStateM.ok_of_bind hrun
    have hall := ih (h.step hsteady hpolite hfirst) hrest
    rwa [List.reverse_cons, List.append_assoc]

end Step

end Decoder.Resolves

namespace Decode

open Decoder

/-- A pool that was just read has no marks, and nothing in its first slot. -/
theorem fresh_of_readPool {s t : Decoder} (hread : readPool s = .ok () t)
    {slot : Nat} {entry : Entry} (h : t.pool.entries[slot]? = some entry) : entry.Fresh slot := by
  rw [readPool] at hread
  split at hread
  · rename_i filled hfilled
    cases hread
    exact Pool.fresh_read hfilled h
  · cases hread

/-- All places but the first are visited, and nothing is in the first. -/
theorem exists_place_iff {s₀ s : Decoder} (hread : readPool s₀ = .ok () s) {P : Nat → Prop}
    (hP : ∀ place, P place → ∃ entry, s.pool.entries[place]? = some entry ∧ entry ≠ .unused) :
    (∃ place ∈ ((List.range s.pool.size).drop 1).reverse ++ [], P place) ↔ ∃ place, P place := by
  refine ⟨fun ⟨place, _, h⟩ => ⟨place, h⟩, fun ⟨place, h⟩ => ⟨place, ?_, h⟩⟩
  obtain ⟨entry, hentry, hused⟩ := hP place h
  have hlt : place < s.pool.size := (Array.getElem?_eq_some_iff.1 hentry).1
  have hzero : place ≠ 0 := fun hzero =>
    hused ((hzero ▸ fresh_of_readPool hread hentry : entry.Fresh 0).of_zero)
  rw [List.append_nil, List.mem_reverse, List.range_eq_range', List.drop_range', List.mem_range'_1]
  omega

/-- When the loop is over, all that is left to say is what the pool cites and reports. -/
theorem resolves_of_referPool {context : Context} {s₀ s t : Decoder}
    (hsteady : context.namer.Steady) (hpolite : context.Polite) (hread : readPool s₀ = .ok () s)
    (hrun : referPool context s = .ok () t) :
    t.pool.Like s.pool ∧
      (∀ (slot : Nat) (name : UInt16), t.pool.entries[slot]? = some (.classInfo name true) ↔
        (∃ mark, s.pool.entries[slot]? = some (.classInfo name mark)) ∧
          ∃ place, s.pool.Cites place slot) ∧
      s.RefersTo context.namer (fun type => ∃ place, s.pool.Reports place type) t := by
  have hfresh (slot : Nat) (name : UInt16) : s.pool.entries[slot]? ≠ some (.classInfo name true) :=
    fun hentry => nomatch (fresh_of_readPool hread hentry).unmarked
  have hnil : s.Resolves context.namer [] s := .nil hfresh
  have hall := hnil.run hsteady hpolite hrun
  refine ⟨hall.like, fun slot name => ?_, hall.refers.congr fun type => ?_⟩
  · rw [hall.marked, exists_place_iff hread]
    rintro place ⟨kind, owner, member, hentry, -⟩
    exact ⟨_, hentry, nofun⟩
  · refine exists_place_iff hread fun place hreports => ?_
    rcases hreports with ⟨hentry, -⟩ | ⟨hentry, -, -⟩
    · exact ⟨_, hentry, nofun⟩
    · exact ⟨_, hentry, nofun⟩

/-- If the marks are on the constants that are cited, what is reported is what is mentioned. -/
theorem mentions_iff_of_marked {p q : Pool} (hlike : q.Like p)
    (hmarked : ∀ (slot : Nat) (name : UInt16), q.entries[slot]? = some (.classInfo name true) ↔
      (∃ mark, p.entries[slot]? = some (.classInfo name mark)) ∧ ∃ place, p.Cites place slot)
    (type : TypeName) : q.Mentions type ↔ ∃ place, p.Reports place type := by
  constructor
  · rintro (⟨hentry, hname⟩ | ⟨hentry, htext, hname⟩)
    · obtain ⟨⟨mark, hclass⟩, place, kind, owner, member, hcites, rfl⟩ := (hmarked _ _).1 hentry
      refine ⟨place, .ref hcites ?_⟩
      rw [Pool.className, Pool.entry, hclass]
      exact (Pool.Question.utf8 _).ok_of_like hlike hname
    · exact ⟨_, .nameAndType (hlike.nameAndType hentry)
        ((Pool.Question.utf8 _).ok_of_like hlike htext) hname⟩
  · rintro ⟨place, ⟨hentry, hname⟩ | ⟨hentry, htext, hname⟩⟩
    · obtain ⟨index, mark, hclass, hname⟩ := Pool.entry_of_className hname
      exact .constant ((hmarked _ _).2 ⟨⟨mark, hclass⟩, place, _, _, _, hentry, rfl⟩)
        ((Pool.Question.utf8 _).ok_of_like hlike.symm hname)
    · exact .descriptor (hlike.symm.nameAndType hentry)
        ((Pool.Question.utf8 _).ok_of_like hlike.symm htext) hname

/-- **What comes of going through a pool.** Whenever a pool was read and gone through, the marks are
on the class constants that some reference to a member names, and the pool is otherwise as it was;
it has an orphan if and only if it has a class constant that no such reference names; and the types
that were referred to are those that the marked constants and the descriptors mention, if neither
they nor their packages are primitive. For a package that the namer fixes this can be seen before
the pool is gone through, so that the order of the slots has no say in it. -/
theorem referPool_resolves {context : Context} {s₀ s t : Decoder}
    (hsteady : context.namer.Steady) (hpolite : context.Polite) (hread : readPool s₀ = .ok () s)
    (hrun : referPool context s = .ok () t) :
    (∀ (slot : Nat) (name : UInt16), t.pool.entries[slot]? = some (.classInfo name true) ↔
      (∃ mark, s.pool.entries[slot]? = some (.classInfo name mark)) ∧
        ∃ place, s.pool.Cites place slot) ∧
    t.pool.Like s.pool ∧
    (t.pool.hasOrphan = true ↔ ∃ (slot : Nat) (name : UInt16) (mark : Bool),
      s.pool.entries[slot]? = some (.classInfo name mark) ∧ ¬∃ place, s.pool.Cites place slot) ∧
    (∀ type, type ∈ t.references ↔ type ∈ s.references ∨
      (∃ mention, t.pool.Mentions mention ∧ mention.referent = type) ∧ type.isPrimitive = false ∧
        (context.namer.packageOf type t.session.table).1.primitive = false) ∧
    (∀ type, context.namer.Fixes s.session.table
        (context.namer.packageOf type s.session.table).1 →
      (type ∈ t.references ↔ type ∈ s.references ∨
        (∃ place mention, s.pool.Reports place mention ∧ mention.referent = type) ∧
          type.isPrimitive = false ∧
          (context.namer.packageOf type s.session.table).1.primitive = false)) := by
  obtain ⟨hlike, hmarked, hrefers⟩ := resolves_of_referPool hsteady hpolite hread hrun
  -- the loop knows what each place reports; regrouped, that is what the pool before it tells
  have hreferences (type : TypeName) : type ∈ t.references ↔ type ∈ s.references ∨
      (∃ place mention, s.pool.Reports place mention ∧ mention.referent = type) ∧
        type.isPrimitive = false ∧
        (context.namer.packageOf type t.session.table).1.primitive = false := by
    rw [hrefers.references]
    refine or_congr_right ⟨?_, ?_⟩
    · rintro ⟨mention, ⟨place, hreports⟩, htakes, rfl⟩
      exact ⟨⟨place, mention, hreports, rfl⟩, htakes⟩
    · rintro ⟨⟨place, mention, hreports, rfl⟩, htakes⟩
      exact ⟨mention, ⟨place, hreports⟩, htakes, rfl⟩
  refine ⟨hmarked, hlike, ?_, fun type => ?_, fun type hfixes => ?_⟩
  · rw [Pool.hasOrphan_iff]
    constructor
    · rintro ⟨slot, name, hplain⟩
      obtain ⟨mark, hclass⟩ := hlike.classInfo hplain
      refine ⟨slot, name, mark, hclass, fun hcites => ?_⟩
      cases hplain.symm.trans ((hmarked slot name).2 ⟨⟨mark, hclass⟩, hcites⟩)
    · rintro ⟨slot, name, mark, hclass, hcites⟩
      obtain ⟨mark, hthere⟩ := hlike.symm.classInfo hclass
      cases mark with
      | true => exact absurd ((hmarked slot name).1 hthere).2 hcites
      | false => exact ⟨slot, name, hthere⟩
  · rw [hreferences, exists_comm]
    simp only [mentions_iff_of_marked hlike hmarked, exists_and_right]
  · rw [hreferences, (hfixes type _ hrefers.reaches).2 rfl]

/-! ### Two classes that share a package -/

/-- A pool with the classes `A`, `[L[I;` and `=primitive/X` in the slots 2, 4 and 6, and behind them
two references to fields, of classes in these slots. -/
def poolWithFields (first second : UInt8) : Bytes :=
  [0, 12, 1, 0, 1, 65, 7, 0, 1, 1, 0, 5, 91, 76, 91, 73, 59, 7, 0, 3, 1, 0, 12, 61, 112, 114,
    105, 109, 105, 116, 105, 118, 101, 47, 88, 7, 0, 5, 1, 0, 1, 102, 1, 0, 1, 73, 12, 0, 7,
    0, 8]
    ++ [9, 0, first, 0, 9] ++ [9, 0, second, 0, 9]

/-- A pool is read and gone through. -/
def resolve (bytes : Bytes) : Option (Decoder × Decoder) :=
  match readPool (Session.decoder {} none bytes {}) with
  | .ok _ s =>
    match referPool ⟨.shared, none⟩ s with
    | .ok _ t => some (s, t)
    | .error _ _ => none
  | .error _ _ => none

theorem ok_of_resolve {bytes : Bytes} {s t : Decoder} (h : resolve bytes = some (s, t)) :
    readPool (Session.decoder {} none bytes {}) = .ok () s ∧
      referPool ⟨.shared, none⟩ s = .ok () t := by
  rw [resolve] at h
  split at h
  · rename_i hread
    split at h
    · rename_i hrun
      cases h
      exact ⟨hread, hrun⟩
    · cases h
  · cases h

/-- Only the order of the two field references is different, but the types that are referred to
differ as well: the class of the first one has its package filed under the name that both packages
have. -/
theorem resolve_poolWithFields :
    (resolve (poolWithFields 4 6)).map (fun found => (found.2.pool.hasOrphan,
        found.2.references.toList)) = some (true, []) ∧
      (resolve (poolWithFields 6 4)).map (fun found => (found.2.pool.hasOrphan,
        found.2.references.toList)) = some (true, [⟨"=primitive/X"⟩, ⟨"[I"⟩]) ∧
      (resolve (poolWithFields 6 4)).map (fun found => found.1.pool.entries) =
        (resolve (poolWithFields 4 6)).map fun found =>
          found.1.pool.entries.swapIfInBounds 10 11 := by
  decide +kernel

/-- The class `A` is an orphan, and the others are not: nothing in the pool names it, so its
constant is the one without a mark. -/
theorem referPool_resolves_of_fields :
    ∃ s t, readPool (Session.decoder {} none (poolWithFields 6 4) {}) = .ok () s ∧
      referPool ⟨.shared, none⟩ s = .ok () t ∧
      (∃ (slot : Nat) (name : UInt16) (mark : Bool),
        s.pool.entries[slot]? = some (.classInfo name mark) ∧ ¬∃ place, s.pool.Cites place slot) ∧
      (∀ (slot : Nat) (name : UInt16), t.pool.entries[slot]? = some (.classInfo name true) ↔
        (∃ mark, s.pool.entries[slot]? = some (.classInfo name mark)) ∧
          ∃ place, s.pool.Cites place slot) := by
  obtain ⟨⟨s, t⟩, hresolve, hfound⟩ := Option.map_eq_some_iff.1 resolve_poolWithFields.2.1
  obtain ⟨hread, hrun⟩ := ok_of_resolve hresolve
  obtain ⟨hmarked, -, horphan, -⟩ := @referPool_resolves ⟨.shared, none⟩ _ _ _
    Namer.shared_steady (Context.polite_of_none _) hread hrun
  exact ⟨s, t, hread, hrun, horphan.1 (congrArg Prod.fst hfound), hmarked⟩

/-- With two of its slots in the other order, a pool refers to other types. The entries are the
same, but the first of them takes the name that the packages of both share. -/
theorem referPool_differs_of_order :
    ∃ s t s' t', readPool (Session.decoder {} none (poolWithFields 4 6) {}) = .ok () s ∧
      referPool ⟨.shared, none⟩ s = .ok () t ∧
      readPool (Session.decoder {} none (poolWithFields 6 4) {}) = .ok () s' ∧
      referPool ⟨.shared, none⟩ s' = .ok () t' ∧
      s'.pool.entries = s.pool.entries.swapIfInBounds 10 11 ∧
      ⟨"=primitive/X"⟩ ∉ t.references ∧ ⟨"=primitive/X"⟩ ∈ t'.references := by
  obtain ⟨hfirst, hsecond, hsame⟩ := resolve_poolWithFields
  obtain ⟨⟨s, t⟩, hresolve, hfound⟩ := Option.map_eq_some_iff.1 hfirst
  obtain ⟨⟨s', t'⟩, hresolve', hfound'⟩ := Option.map_eq_some_iff.1 hsecond
  obtain ⟨hread, hrun⟩ := ok_of_resolve hresolve
  obtain ⟨hread', hrun'⟩ := ok_of_resolve hresolve'
  rw [hresolve, hresolve'] at hsame
  have hnone : t.references.toList = [] := congrArg Prod.snd hfound
  have hboth : t'.references.toList = [⟨"=primitive/X"⟩, ⟨"[I"⟩] := congrArg Prod.snd hfound'
  refine ⟨s, t, s', t', hread, hrun, hread', hrun', Option.some.inj hsame, ?_, ?_⟩
  · rw [← Std.ExtTreeSet.mem_toList, hnone]
    exact List.not_mem_nil
  · rw [← Std.ExtTreeSet.mem_toList, hboth]
    exact List.mem_cons_self

end Decode

end ClassFile
