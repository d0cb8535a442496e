import ClassFile.Proofs.Acting
import ClassFile.Proofs.Walks

/-!
# Classes that have to be walked through

What `ClassFile.Layout.Walks` lists does not only account for a walk, it brings one about: if a
class constant is an orphan, if a field keeps a class literal, or if the version has no class
literals and the class loads others by name, then the decoder walks through the method bodies, and
it looks for the methods that load classes (`ClassFile.Decode.prepareWalks_minds`). So does a
decoder that was to walk from the start, because somebody listens. Whoever listens may do what he
likes meanwhile.

What a decoder attends to is decided by the fields and then by one step in front of the methods. No
reference, no attribute and no listener changes it, nor what the header says of the class
(`ClassFile.Decode.Minding`).
-/

namespace ClassFile

/-- Only the entry that is met may get a mark. -/
theorem Pool.getElem?_markReferred_of_ne {pool : Pool} {index : UInt16} {slot : Nat}
    (h : index.toNat ≠ slot) :
    (pool.markReferred index).2.entries[slot]? = pool.entries[slot]? := by
  rw [markReferred]
  split
  · exact Array.getElem?_setIfInBounds_ne h
  · rfl

namespace Decoder

/-- The listener has no part in whether bodies are walked through. -/
theorem scene_told (c : Context) (event : Event) (s : Decoder) :
    (s.told c event).scene = s.scene := by
  rw [told]
  cases c.listener <;> rfl

/-- The decoder goes through a class of this layout and this name, and what it attends to is like
that. -/
structure Scene.Minds (layout : Layout) (name : TypeName) (A : Bool → Targets → Prop)
    (scene : Scene) : Prop where
  pool : scene.pool.Like layout.constants
  header : ∀ record ∈ scene.record, record.major = layout.major ∧ record.name = name
  attention : A scene.walking scene.targets

variable {layout : Layout} {name : TypeName} {A B : Bool → Targets → Prop} {s : Decoder}

theorem Scene.Minds.imp {scene : Scene} (h : scene.Minds layout name A)
    (himp : ∀ walking targets, A walking targets → B walking targets) : scene.Minds layout name B :=
  ⟨h.pool, h.header, himp _ _ h.attention⟩

/-- A change of the record that keeps the version and the name keeps the decision, for only these
two are looked at. -/
theorem Scene.Minds.withRecord (h : s.scene.Minds layout name A) {f : Record → Record}
    (hmajor : ∀ record, (f record).major = record.major)
    (hname : ∀ record, (f record).name = record.name) :
    Scene.Minds layout name A { s with record := s.record.map f }.scene where
  pool := h.pool
  header record hrecord := by
    obtain ⟨found, hfound, rfl⟩ := Option.map_eq_some_iff.1 hrecord
    rw [hmajor, hname]
    exact h.header found hfound
  attention := h.attention

end Decoder

namespace Decode

open Decoder

/-! ### Steps that change nothing about it -/

/-- To refer to a type and to tell of it does not change the scene. -/
theorem naming_scene (c : Context) (J : Scene → Prop) :
    Naming c c fun m _ => Keeps (fun s => J s.scene) (fun _ => True) m where
  toAsking := Lasting.asking _
  named type := .modify fun s hs => by rwa [scene_told]
  refer type access s hs := by
    rw [refer_told]
    dsimp only
    split
    · rwa [scene_told]
    · exact hs

/-- What is on record of the header stays, and so does what the decoder attends to. -/
abbrev Minding (layout : Layout) (name : TypeName) (A : Bool → Targets → Prop) {α : Type}
    (m : Decode α) : Prop :=
  Keeps (fun s => s.scene.Minds layout name A) (fun _ => True) m

namespace Minding

variable {c : Context} {layout : Layout} {name : TypeName} {A : Bool → Targets → Prop}

/-- Uniform changes of the record are of that kind. -/
theorem updateRecord {f : Record → Record} (hf : Record.Uniform f) :
    Minding layout name A (updateRecord f) :=
  Keeps.updateRecord trivial fun _ hs => hs.withRecord hf.major hf.name

theorem updateMember (f : Member → Member) : Minding layout name A (updateMember f) := by
  intro s hs
  obtain ⟨g, hg, hrun⟩ := updateMember_ok f s
  rw [hrun]
  exact hs.withRecord hg.headed.major hg.headed.name

theorem tell (event : Event) : Minding layout name A (tell c event) :=
  .modify fun s hs => by rwa [scene_told]

/-- To refer to types is to collect, which has no part in the decision either. -/
theorem naming : Naming c c fun m _ => Minding layout name A m :=
  naming_scene c (·.Minds layout name A)

/-- To meet a class constant is to mark it. The pool stays like the one that was read, and the
decision does not look at marks. -/
theorem constant (index : UInt16) : Minding layout name A (referClassConstant c index) := by
  rw [referClassConstant_eq]
  refine .bind (fun s hs =>
    ⟨(Pool.like_markReferred _ index).trans hs.pool, hs.header, hs.attention⟩) fun found => ?_
  cases found with
  | some found => exact naming.refer _ 0
  | none => exact .pure ()

theorem call (index : UInt16) : Minding layout name A ((handlers c).method index) := by
  dsimp only [handlers]
  split
  · exact .bind (.ask fun _ _ _ => trivial) fun _ => tell _
  · exact .pure ()

/-- All steps of the readers of attributes mind what was decided. -/
theorem elementary : Elementary c c fun m _ => Minding layout name A m where
  toNaming := naming
  look hk := .look fun s => hk s s rfl
  constant := constant
  call := call
  take _ := .read (fun _ _ hs => hs) fun _ _ _ _ => trivial
  within hm := .within (fun _ _ hs => hs) hm
  tell _ := tell _
  expose type access s hs := by
    rw [expose_eq]
    exact hs
  attempt index access := .succeeds (naming.referDescriptor index access)
  updateRecord hf := updateRecord hf.toUniform
  updateMember _ := updateMember _

theorem signatureAttribute (site : Site) (access : Access) :
    Minding layout name A (signatureAttribute c site access) :=
  elementary.lockstep.signatureAttribute (fun _ => updateMember _) site access

/-- A walk minds what was decided, also while it is carried out. -/
theorem walk (targets : Targets) (code : Bytes) :
    Minding layout name A ((handlers c).walk targets code) :=
  elementary.lockstep.walk targets code

theorem code : Minding layout name A (code c) :=
  elementary.lockstep.code signatureAttribute fun code => .look fun s => walk s.targets code

/-- One attribute minds what was decided, if a method body does. -/
theorem attributeOf {onCode : Decode Unit} (hcode : Minding layout name A onCode) (site : Site)
    (access : Access) (raw : RawAttribute) :
    Minding layout name A (attributeOf c onCode site access raw) :=
  @Lockstep.attributeOf _ _ _ elementary.lockstep signatureAttribute onCode onCode
    hcode site access raw

theorem attributesOf {onCode : Decode Unit} (hcode : Minding layout name A onCode) (site : Site)
    (access : Access) (raws : List RawAttribute) :
    Minding layout name A (attributesOf c onCode site access raws) :=
  @Lockstep.attributesOf _ _ _ elementary.lockstep signatureAttribute onCode
    onCode hcode site access raws

/-- And so do the steps that open a class and its members. -/
theorem heading : Heading c c fun m _ => Minding layout name A m where
  toReferring := naming.referring
  updateHeaded hf := updateRecord hf.toUniform
  announce _ := tell _

/-- A member that is opened may have the decoder walk. -/
theorem openMember (kind : LastMember) (header : MemberHeader)
    (hA : ∀ walking targets, A walking targets → A true targets) :
    Minding layout name A (openMember c kind header) := by
  refine @Asking.openMember c c _ (Lasting.asking _) kind header (naming.referDescriptor _ _)
    (fun _ => tell _) (fun hf => updateRecord hf.toUniform) (fun _ _ => ?_) ?_
  · exact .modify fun s hs => ⟨hs.pool, hs.header, hA _ _ hs.attention⟩
  · exact .modify fun _ hs => ⟨hs.pool, hs.header, hs.attention⟩

/-- What follows the header of a member are its attributes, in which nothing is decided. -/
theorem afterOpening (kind : LastMember) (header : MemberHeader) (raws : List RawAttribute) :
    Minding layout name A (afterOpening c kind header raws) := by
  cases kind with
  | field => exact attributesOf (.pure ()) _ _ _
  | method =>
    refine .look fun s => attributesOf ?_ _ _ _
    split
    · exact code
    · exact .pure ()

/-- A field may decide that bodies are walked through, when it is opened. So what was decided before
must allow for that. -/
theorem memberOf (kind : LastMember) (raw : RawMember)
    (hA : ∀ walking targets, A walking targets → A true targets) :
    Minding layout name A (memberOf c kind raw) := by
  rw [memberOf_eq]
  refine .bind ((Lasting.asking _).memberHeaderOf raw) fun header => ?_
  exact .bind (openMember kind header hA) fun _ => afterOpening kind header raw.attributes

theorem pooled : Pooled c c fun m _ => Minding layout name A m where
  toReferring := naming.referring
  constant := constant
  lookPool hk := .look fun s => hk s s (.refl _)

end Minding

/-! ### Orphans -/

/-- The class constant in a slot is not marked. -/
def Unmet (pool : Pool) (slot : Nat) (scene : Scene) : Prop :=
  scene.pool.Like pool ∧ ∃ name, scene.pool.entries[slot]? = some (.classInfo name false)

/-- A constant that is met elsewhere does not meet the one in this slot. -/
theorem referClassConstant_unmet {c : Context} {pool : Pool} {slot : Nat} {index : UInt16}
    (h : index.toNat ≠ slot) :
    Keeps (fun s => Unmet pool slot s.scene) (fun _ => True) (referClassConstant c index) := by
  rw [referClassConstant_eq]
  refine .bind (fun s hs => ?_) fun found => ?_
  · obtain ⟨hlike, name, hname⟩ := hs
    refine ⟨(Pool.like_markReferred _ index).trans hlike, name, ?_⟩
    exact (Pool.getElem?_markReferred_of_ne h).trans hname
  · cases found with
    | some found => exact (naming_scene c (Unmet pool slot)).refer _ 0
    | none => exact .pure ()

/-- An orphan is met by nothing that the pool refers to. -/
theorem referEntry_unmet {c : Context} {pool : Pool} {slot other : Nat} (horphan : pool.Orphan slot)
    (hother : other ≠ 0) :
    Leads (fun s => Unmet pool slot s.scene) (fun _ s => Unmet pool slot s.scene)
      (referEntry c other) := by
  refine .look fun s hs => ?_
  split
  · rename_i kind owner member hentry
    obtain ⟨before, rfl⟩ := Nat.exists_eq_succ_of_ne_zero hother
    have howned : pool.Owned owner := ⟨before, kind, member, hs.1.ref hentry⟩
    exact (referClassConstant_unmet fun hsame => horphan.2 owner hsame howned).leads
  · exact ((naming_scene c (Unmet pool slot)).referDescriptor _ 0).leads
  · exact .pure fun _ hs => hs

/-- So it is still an orphan when the pool was gone through. -/
theorem hasOrphan_of_referPool {c : Context} {pool : Pool} {slot : Nat} (horphan : pool.Orphan slot)
    {s t : Decoder} (hs : Unmet pool slot s.scene) (hrun : referPool c s = .ok () t) :
    t.pool.hasOrphan = true := by
  have hentries : Leads (fun s => Unmet pool slot s.scene) (fun _ s => Unmet pool slot s.scene)
      (((List.range s.pool.size).drop 1).forM (referEntry c)) := by
    refine .forM fun other hmem => referEntry_unmet horphan fun hzero => ?_
    rw [List.range_eq_range', List.drop_range', List.mem_range'_1] at hmem
    omega
  obtain ⟨-, name, hname⟩ := hentries _ _ _ hs hrun
  exact Array.any_eq_true'.2 ⟨_, Array.mem_of_getElem? hname, rfl⟩

/-! ### The header -/

/-- When the class is open the decoder goes through its layout, and it walks if it was to walk
before. An orphan is known of. -/
theorem minds_of_classHeaderOf {c : Context} {layout : Layout} {s t : Decoder}
    {header : Record × Bool}
    (hrecord : s.record = none) (hrun : classHeaderOf c layout.toRawHeader s = .ok header t) :
    t.scene.Minds layout header.1.name (fun walking _ => walking = s.walking) ∧
      ∀ slot, layout.constants.Orphan slot → header.2 = true := by
  obtain ⟨v, className, hrefer, -, rfl, hopen⟩ := classHeaderOf_eq_ok_iff.1 hrun
  let start : Decoder := { s.told c (.version layout.minor layout.major) with
    pool := layout.constants }
  have hscene : start.scene = { s.scene with pool := layout.constants } := by
    rw [← scene_told c (.version layout.minor layout.major) s]
    rfl
  have hfirst (name : TypeName) :
      start.scene.Minds layout name fun walking _ => walking = s.walking := by
    rw [hscene]
    refine ⟨.refl _, fun record h => ?_, rfl⟩
    cases hrecord.symm.trans h
  have hreferred (name : TypeName) :
      v.scene.Minds layout name fun walking _ => walking = s.walking :=
    Minding.pooled.referPool.leads _ _ _ (hfirst name) hrefer
  obtain ⟨w, hclass, rfl⟩ := openClass_eq_ok_iff.1 hopen
  have hopened : w.scene.Minds layout (.ofText className) fun walking _ => walking = s.walking :=
    (Minding.naming.refer (.ofText className) Access.publicBit).leads
      { v with api := if layout.access.isPublic then some ∅ else none } () w (hreferred _) hclass
  refine ⟨⟨hopened.pool, ?_, hopened.attention⟩, fun slot horphan => ?_⟩
  · rintro _ ⟨⟩
    exact ⟨rfl, rfl⟩
  · -- no entry is marked when the pool was read, and the pool itself does not refer to an orphan
    obtain ⟨found, mark, hentry⟩ := horphan.1
    cases (layout.toRawHeader.fresh_constants hentry).unmarked
    refine hasOrphan_of_referPool horphan ?_ hrefer
    rw [hscene]
    exact ⟨.refl _, found, hentry⟩

/-! ### Fields -/

/-- A field in which early compilers kept a class literal. -/
def KeepsLiteral (layout : Layout) : Prop :=
  ∃ field ∈ layout.fields, ∃ text, layout.constants.utf8 field.name = .ok text ∧
    isClassLiteral text = true

/-- A field that can hold a class literal has the decoder walk through bodies, from the methods
on. -/
theorem fieldOf_literal {c : Context} {layout : Layout} {name : TypeName}
    {A : Bool → Targets → Prop}
    {raw : RawMember} {text : String} (htext : layout.constants.utf8 raw.name = .ok text)
    (hliteral : isClassLiteral text = true) :
    Leads (fun s => s.scene.Minds layout name A)
      (fun _ s => s.scene.Minds layout name fun walking _ => walking = true)
      (memberOf c .field raw) := by
  intro s _ t hs hrun
  rw [memberOf_eq] at hrun
  obtain ⟨header, _, hheader, hrest⟩ := EStateM.ok_of_bind hrun
  obtain ⟨hsame, -, -, hname, -⟩ := memberHeaderOf_ok hheader
  rw [hsame] at hrest
  obtain ⟨_, u, hopen, hafter⟩ := EStateM.ok_of_bind hrest
  cases ((Pool.Question.utf8 raw.name).ok_of_like hs.pool hname).symm.trans htext
  -- it makes no difference if the decoder was to walk before
  have hlate : openMember c .field header s =
      openMember c .field header { s with walking := true } := by
    rw [openMember, openField, if_pos hliteral]
    rfl
  rw [hlate] at hopen
  have hopened : u.scene.Minds layout name fun walking _ => walking = true :=
    (Minding.openMember .field header fun _ _ _ => rfl).leads { s with walking := true } _ u
      ⟨hs.pool, hs.header, rfl⟩ hopen
  exact (Minding.afterOpening .field header raw.attributes).leads _ _ _ hopened hafter

/-- After the fields the decoder walks if it was to walk before, or if one keeps a class literal. -/
theorem fields_minds {c : Context} {layout : Layout} {name : TypeName} {due : Prop} :
    Leads (fun s => s.scene.Minds layout name fun walking _ => due → walking = true)
      (fun _ s => s.scene.Minds layout name fun walking _ =>
        due ∨ KeepsLiteral layout → walking = true)
      (layout.fields.forM (memberOf c .field)) := by
  have hkeeps (due : Prop) (raw : RawMember) : Leads
      (fun s => s.scene.Minds layout name fun walking _ => due → walking = true)
      (fun _ s => s.scene.Minds layout name fun walking _ => due → walking = true)
      (memberOf c .field raw) :=
    (Minding.memberOf .field raw fun _ _ _ _ => rfl).leads
  by_cases hliteral : KeepsLiteral layout
  · obtain ⟨field, hfield, text, htext, hname⟩ := hliteral
    refine .forM_of_mem hfield (fun raw _ => hkeeps _ raw) ?_ fun raw _ => hkeeps _ raw
    exact (fieldOf_literal htext hname).imp fun _ _ hs => hs.imp fun _ _ hwalking _ => hwalking
  · refine (Leads.forM fun raw _ => hkeeps due raw).imp fun _ _ hs => hs.imp fun _ _ hwalking => ?_
    exact fun hdue => hwalking (hdue.resolve_right hliteral)

/-! ### In front of the methods -/

/-- **A class that has to be walked through is walked through**: a decoder that was to walk before,
or that was told to by the fields, or by an orphan, or by the version, looks for the methods that
load classes. -/
theorem prepareWalks_minds {layout : Layout} {name : TypeName} {A : Bool → Targets → Prop}
    {orphan : Bool} (hA : ∀ walking targets, A walking targets → walking = true ∨ orphan = true ∨
      layout.major = lastMajorWithoutLiterals ∧
        (layout.constants.loaders name).forName.isSome = true) :
    Leads (fun s => s.scene.Minds layout name A)
      (fun _ s => s.scene.Minds layout name fun walking targets =>
        walking = true ∧ targets = layout.constants.loaders name) (prepareWalks orphan) := by
  intro s _ t hs hrun
  rcases Option.eq_none_or_eq_some s.record with hrecord | ⟨found, hrecord⟩
  · rw [prepareWalks_of_none hrecord] at hrun
    cases hrun
  obtain ⟨hmajor, hname⟩ := hs.header found hrecord
  have hloaders : s.pool.loaders found.name = layout.constants.loaders name := by
    rw [hname]
    exact hs.pool.loaders name
  have hwalking : (s.walking || orphan || found.major = lastMajorWithoutLiterals &&
      (s.pool.loaders found.name).forName.isSome) = true := by
    rw [hloaders, hmajor, Bool.or_eq_true, Bool.or_eq_true, Bool.and_eq_true, decide_eq_true_eq,
      or_assoc]
    exact hA _ _ hs.attention
  rw [prepareWalks_of_some hrecord] at hrun
  cases hrun
  refine ⟨hs.pool, hs.header, hwalking, ?_⟩
  exact (if_pos hwalking).trans hloaders

end Decode

end ClassFile
