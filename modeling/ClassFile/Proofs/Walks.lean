import ClassFile.Proofs.Classwise

/-!
# Classes with bodies that are walked through

Whether the method bodies of a class are walked through is decided when its fields were read, and
what is in the file decides it: a class constant that is named by no reference to a member, a field
in which early compilers kept a class literal, or a version without class literals together with a
method that loads classes (`ClassFile.Layout.Walks`). No body and no attribute has a say in it.

So a decoder that goes through a class keeps to that (`ClassFile.Decoder.Heeds`), whatever it reads:
attributes (`ClassFile.Decode.Heeding.lockstep`), supertypes and members.
-/

namespace ClassFile

/-! ### What decides it -/

/-- There is a class constant in the slot, and no reference to a member names it. -/
def Pool.Orphan (pool : Pool) (slot : Nat) : Prop :=
  (∃ name mark, pool.entries[slot]? = some (.classInfo name mark)) ∧
    ∀ index : UInt16, index.toNat = slot → ¬pool.Owned index

/-- The method bodies of the class are walked through. -/
inductive Layout.Walks (layout : Layout) : Prop where
  /-- Only instructions name one of its class constants. -/
  | orphan {slot : Nat} : layout.constants.Orphan slot → Walks layout
  /-- An early compiler kept a class literal in one of its fields. -/
  | literal {field : RawMember} {name : String} : field ∈ layout.fields →
    layout.constants.utf8 field.name = .ok name → Decode.isClassLiteral name = true → Walks layout
  /-- Its version has no class literals, and it loads classes by name. -/
  | loader {name : TypeName} : layout.major = Decode.lastMajorWithoutLiterals →
    (layout.constants.loaders name).forName.isSome = true → Walks layout

/-- If there is an orphan after the pool was gone through, there was one before. -/
theorem Pool.orphan_of_hasOrphan {pool other : Pool} (hlike : other.Like pool)
    (howned : ∀ {index nameIndex : UInt16} {mark : Bool},
      pool.entries[index.toNat]? = some (.classInfo nameIndex mark) → pool.Owned index →
      other.Marked index) (h : other.hasOrphan = true) : ∃ slot, pool.Orphan slot := by
  obtain ⟨entry, hmem, hplain⟩ := Array.any_eq_true'.1 h
  cases entry with
  | classInfo name mark =>
    cases mark with
    | true => cases hplain
    | false =>
      obtain ⟨slot, hentry⟩ := Array.getElem?_of_mem hmem
      obtain ⟨mark, hthere⟩ := hlike.classInfo hentry
      refine ⟨slot, ⟨name, mark, hthere⟩, ?_⟩
      rintro index rfl hown
      obtain ⟨_, hmarked⟩ := howned hthere hown
      cases hentry.symm.trans hmarked
  | _ => cases hplain

/-! ### Decoders that keep to it -/

/-- The decoder goes through a class of this layout, and if it walks through method bodies, then
because of what is in the layout. -/
structure Decoder.Heeds (layout : Layout) (s : Decoder) : Prop where
  pool : s.pool.Like layout.constants
  major : ∀ record ∈ s.record, record.major = layout.major
  walking : s.walking = true → layout.Walks

namespace Decoder.Heeds

variable {layout : Layout} {s t : Decoder}

/-- It does not matter what is collected, or where the decoder stands: only the constants and the
decision count. -/
theorem lasting (layout : Layout) : Decode.Lasting (Heeds layout) where
  bare {s t} h hbare :=
    { pool := like_of_bare hbare h.pool
      major := by
        rw [show t.record = s.record from (congrArg Decoder.record hbare :)]
        exact h.major
      walking := by
        rw [show t.walking = s.walking from (congrArg Decoder.walking hbare :)]
        exact h.walking }
  withInput _ h := ⟨h.pool, h.major, h.walking⟩
  marked index h := ⟨(Pool.like_markReferred _ index).trans h.pool, h.major, h.walking⟩

/-- Changes of the record do not matter, if they leave the version of the class alone. -/
theorem withRecord (h : s.Heeds layout) {f : Record → Record}
    (hf : ∀ record, (f record).major = record.major) :
    Heeds layout { s with record := s.record.map f } where
  pool := h.pool
  major record hrecord := by
    obtain ⟨found, hfound, rfl⟩ := Option.map_eq_some_iff.1 hrecord
    rw [hf]
    exact h.major found hfound
  walking := h.walking

end Decoder.Heeds

namespace Decode

open Decoder

/-- The step goes from decoders that keep to the layout to such decoders. -/
abbrev Heeding (layout : Layout) {α : Type} (m : Decode α) : Prop :=
  Keeps (Heeds layout) (fun _ => True) m

namespace Heeding

variable {namer : Namer} {layout : Layout} {α : Type}

theorem updateRecord {f : Record → Record} (hf : ∀ record, (f record).major = record.major) :
    Heeding layout (updateRecord f) := by
  exact Keeps.updateRecord trivial fun _ hs => hs.withRecord hf

theorem updateMember (f : Member → Member) : Heeding layout (updateMember f) := by
  intro s hs
  obtain ⟨g, hg, hrun⟩ := updateMember_ok f s
  rw [hrun]
  exact hs.withRecord hg.headed.major

theorem naming : Naming ⟨namer, none⟩ ⟨namer, none⟩ fun m _ => Heeding layout m :=
  (Heeds.lasting layout).naming

theorem within {bytes : Bytes} {m : Decode α} (hm : Heeding layout m) :
    Heeding layout (within bytes m) :=
  (Heeds.lasting layout).within hm

theorem elementary : Elementary ⟨namer, none⟩ ⟨namer, none⟩ fun m _ => Heeding layout m where
  toNaming := naming
  look hk := .look fun s => hk s s rfl
  constant := (Heeds.lasting layout).constant
  call := (Heeds.lasting layout).walking.call
  take := (Heeds.lasting layout).take
  within := within
  tell _ := .modify fun _ hs => hs
  expose type access := (Heeds.lasting layout).collects (.expose type access)
  attempt := (Heeds.lasting layout).attempt
  updateRecord hf := updateRecord hf.major
  updateMember _ := updateMember _

/-- Attributes change nothing about it, be they read or acted upon. -/
theorem lockstep : Lockstep ⟨namer, none⟩ ⟨namer, none⟩ fun m _ => Heeding layout m :=
  elementary.lockstep

theorem signatureAttribute (site : Site) (access : Access) :
    Heeding layout (signatureAttribute ⟨namer, none⟩ site access) :=
  lockstep.signatureAttribute (fun _ => updateMember _) site access

theorem code : Heeding layout (code ⟨namer, none⟩) :=
  lockstep.code signatureAttribute fun code => .look fun s => lockstep.walk s.targets code

theorem attributeOf {onCode : Decode Unit} (hcode : Heeding layout onCode) (site : Site)
    (access : Access) (raw : RawAttribute) :
    Heeding layout (attributeOf ⟨namer, none⟩ onCode site access raw) :=
  @Lockstep.attributeOf _ _ _ lockstep signatureAttribute onCode onCode hcode site access raw

theorem attributesOf {onCode : Decode Unit} (hcode : Heeding layout onCode) (site : Site)
    (access : Access) (raws : List RawAttribute) :
    Heeding layout (attributesOf ⟨namer, none⟩ onCode site access raws) :=
  @Lockstep.attributesOf _ _ _ lockstep signatureAttribute onCode onCode hcode site access raws

theorem heading : Heading ⟨namer, none⟩ ⟨namer, none⟩ fun m _ => Heeding layout m where
  toReferring := naming.referring
  updateHeaded hf := updateRecord hf.major
  announce _ := .modify fun _ hs => hs

/-! ### Members -/

/-- What a field says of the compiler is in the layout: a field that can hold a class literal is one
of its fields. -/
theorem openMember {kind : LastMember} {header : MemberHeader} (hliteral : kind = .field →
      isClassLiteral header.name = true → layout.Walks) :
    Heeding layout (openMember ⟨namer, none⟩ kind header) := by
  refine @Asking.openMember ⟨namer, none⟩ ⟨namer, none⟩ _ (Lasting.asking _) kind header
    (naming.referDescriptor _ _) (fun _ => .modify fun _ hs => hs) (fun hf => updateRecord hf.major)
    (fun hkind hname => ?_) ?_
  · exact .modify fun s hs => ⟨hs.pool, hs.major, fun _ => hliteral hkind hname⟩
  · exact .modify fun _ hs => ⟨hs.pool, hs.major, hs.walking⟩

/-- What is said of a member changes nothing about it. The bodies of methods are walked through or
not, as was decided before. -/
theorem afterOpening (kind : LastMember) (header : MemberHeader) (raws : List RawAttribute) :
    Heeding layout (afterOpening ⟨namer, none⟩ kind header raws) := by
  cases kind with
  | field => exact attributesOf (.pure ()) _ _ _
  | method =>
    refine .look fun s => attributesOf ?_ _ _ _
    split
    · exact code
    · exact .pure ()

/-- A field with the name of a class literal is one of the layout, since its header is read from one
of the members there. -/
theorem walks_of_literal {kind : LastMember} {raw : RawMember} (hraw : raw ∈ layout.members kind)
    {s t : Decoder} (hs : s.Heeds layout) {header : MemberHeader}
    (hheader : memberHeaderOf raw s = .ok header t) (hkind : kind = .field)
    (hliteral : isClassLiteral header.name = true) : layout.Walks := by
  subst hkind
  obtain ⟨-, -, -, hname, -⟩ := memberHeaderOf_ok hheader
  exact .literal hraw ((Pool.Question.utf8 raw.name).ok_of_like hs.pool hname) hliteral

/-- The members of a class come to what the layout says, be they fields or methods. -/
theorem memberOf {kind : LastMember} {raw : RawMember} (hraw : raw ∈ layout.members kind) :
    Heeding layout (memberOf ⟨namer, none⟩ kind raw) := by
  rw [memberOf_eq]
  refine .bind_of_ok ((Lasting.asking _).memberHeaderOf raw) fun s header _ hs hheader => ?_
  exact .bind (openMember (walks_of_literal hraw hs hheader)) fun _ =>
    afterOpening kind header raw.attributes

/-! ### Classes -/

/-- **What is decided after the fields** is what the layout says: bodies are walked through if it
was so from the beginning, or if something in the layout gives a reason to. -/
theorem prepareWalks {orphan : Bool} (horphan : orphan = true → layout.Walks) :
    Heeding layout (prepareWalks orphan) := by
  intro s hs
  cases hrecord : s.record with
  | none =>
    rw [prepareWalks_of_none hrecord]
    exact ⟨hs, trivial⟩
  | some found =>
    rw [prepareWalks_of_some hrecord]
    refine ⟨hs.pool, hs.major, fun hwalking => ?_⟩
    simp only [attend, Bool.or_eq_true, Bool.and_eq_true, decide_eq_true_eq] at hwalking
    rcases hwalking with (hbefore | hfirst) | ⟨hmajor, hloader⟩
    · exact hs.walking hbefore
    · exact horphan hfirst
    · rw [hs.pool.loaders] at hloader
      exact .loader ((hs.major found hrecord).symm.trans hmajor) hloader

end Heeding

/-- To open a member keeps what is known of what was collected, if it is known whatever is
collected. -/
theorem Holding.openMember {c : Context} {pool : Pool} {walks : Prop} {K : Collected → Prop}
    (h : Collected.Kept c pool walks K) (kind : LastMember) (header : MemberHeader) :
    Holding pool K (openMember c kind header) := by
  cases kind with
  | field => exact (Holding.recording h).openField header
  | method => exact (Holding.recording h).openMethod header

/-- A decoder that did not walk through bodies before keeps to the layout when the class is open,
and it knows whether there is an orphan. -/
theorem heeds_of_classHeaderOf {namer : Namer} {layout : Layout} {s t : Decoder}
    {header : Record × Bool} (hrecord : s.record = none) (hwalking : s.walking = false)
    (hrun : classHeaderOf ⟨namer, none⟩ layout.toRawHeader s = .ok header t) :
    t.Heeds layout ∧ (header.2 = true → layout.Walks) := by
  obtain ⟨v, _, hrefer, -, rfl, hopen⟩ := classHeaderOf_eq_ok_iff.1 hrun
  have hfirst : Heeds layout { s with pool := layout.constants } := by
    refine ⟨.refl _, ?_, fun h => absurd (hwalking.symm.trans h) Bool.false_ne_true⟩
    simp [hrecord]
  have hv : v.Heeds layout := (Heeds.lasting layout).pooled.referPool.leads _ _ _ hfirst hrefer
  obtain ⟨w, hclass, rfl⟩ := openClass_eq_ok_iff.1 hopen
  have hopened : Heeds layout { v with api := if layout.access.isPublic then some ∅ else none } :=
    ⟨hv.pool, hv.major, hv.walking⟩
  have hw : w.Heeds layout := ((Heeds.lasting layout).collects (.refer _ _)).leads
    _ _ _ hopened hclass
  refine ⟨⟨hw.pool, ?_, hw.walking⟩, fun horphan => ?_⟩
  · rintro _ ⟨⟩
    rfl
  · obtain ⟨slot, horphan⟩ := Pool.orphan_of_hasOrphan hv.pool
      (fun hclass howned => referPool_marks (.refl _) hrefer hclass howned) horphan
    exact .orphan horphan

end Decode

end ClassFile
