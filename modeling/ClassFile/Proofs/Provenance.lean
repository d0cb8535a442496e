import ClassFile.Proofs.Collected
import ClassFile.Proofs.Growth
import ClassFile.Proofs.Layout
import ClassFile.Proofs.Safety

/-!
# Where references come from

Whatever a decoder refers to is named in the pool: by a class constant, in a descriptor, or by a
string constant with which a class is loaded (`ClassFile.Pool.Names`). So a property of what is
collected holds in the end if it stays when a type that the pool names is referred to
(`ClassFile.Decoder.Collected.Kept`), and when a type is exposed
(`ClassFile.Decoder.Collected.KeptExposed`). This is shown once, by way of
`ClassFile.Decode.Memberwise`, for every such property (`ClassFile.Decode.classFile_collects`).
-/

namespace ClassFile

/-! ### What a pool names -/

/-- The types that a pool names to a decoding, which may walk through method bodies or not. -/
inductive Pool.Names (pool : Pool) (walks : Prop) : TypeName → Prop where
  /-- By a class constant. -/
  | constant {index : UInt16} {name : String} : pool.className index = .ok name →
    Names pool walks (.ofText name)
  /-- In a descriptor or signature. -/
  | descriptor {index : UInt16} {text name : String} : pool.utf8 index = .ok text →
    name ∈ (Signature.scan text).names → Names pool walks (.ofText name)
  /-- By a string constant, with dots, which only a walk comes to. -/
  | string {index : UInt16} {text : String} : walks → pool.stringConstant index = some text →
    Names pool walks (.ofDotted text)

/-- A class constant that gets its mark is named: the class was found behind it. -/
theorem Pool.className_of_markReferred {pool : Pool} {index : UInt16} {name : String}
    (h : (pool.markReferred index).1 = some name) : pool.className index = .ok name := by
  rw [markReferred] at h
  split at h
  · rename_i nameIndex hentry
    let marked : Pool := ⟨pool.entries.setIfInBounds index.toNat (.classInfo nameIndex true)⟩
    have hname : (marked.utf8 nameIndex).toOption = some name := h
    have hsame : marked.utf8 nameIndex = .ok name ↔ pool.utf8 nameIndex = .ok name := by
      have hutf8 := pool.utf8_markReferred index nameIndex name
      rwa [markReferred, hentry] at hutf8
    cases hmarked : marked.utf8 nameIndex with
    | error fault =>
      rw [hmarked] at hname
      cases hname
    | ok found =>
      rw [hmarked] at hname
      cases hname
      rw [className, entry, hentry]
      exact hsame.1 hmarked
  · cases h

/-! ### Properties that stay -/

namespace Decoder

namespace Collected

/-- A property of what is collected that stays when a type that the pool names is referred to,
when the listener acts, and when a class is opened. -/
structure Kept (c : Context) (pool : Pool) (walks : Prop) (K : Collected → Prop) : Prop where
  refer {found : Collected} {type : TypeName} (access : Access) : pool.Names walks type → K found →
    K (found.refer c.namer type access)
  told {s : Decoder} (event : Event) : K s.collected → K (s.told c event).collected
  opened {found : Collected} {api : Option PackageSet} : (∀ packages ∈ api, packages = ∅) →
    K found → K { found with api := api }

/-- A property that stays when a type is exposed, too. -/
structure KeptExposed (c : Context) (pool : Pool) (walks : Prop) (K : Collected → Prop) : Prop
    extends Kept c pool walks K where
  expose {found : Collected} (type : TypeName) (access : Access) : K found →
    K (found.expose c.namer type access)

end Collected

/-- The decoder has this pool, but for the marks, and what it has collected is like that. -/
def Holds (pool : Pool) (K : Collected → Prop) (s : Decoder) : Prop :=
  s.pool.Like pool ∧ K s.collected

/-- Nothing but the pool and what was collected matters. -/
theorem Holds.of_eq {pool : Pool} {K : Collected → Prop} {s t : Decoder} (h : s.Holds pool K)
    (hpool : t.pool = s.pool) (hcollected : t.collected = s.collected) : t.Holds pool K := by
  rw [Holds, hpool, hcollected]
  exact h

end Decoder

namespace Decode

open Decoder

/-- The step keeps a property of what is collected, whether or not it succeeds. -/
structure Holding (pool : Pool) (K : Decoder.Collected → Prop) {α : Type} (m : Decode α) :
    Prop where
  keeps : Keeps (Holds pool K) (fun _ => True) m

namespace Holding

variable {α β : Type} {c : Context} {pool : Pool} {K : Decoder.Collected → Prop}

theorem pure (a : α) : Holding pool K (Pure.pure a) := ⟨.pure a⟩

/-- Where a step fails nothing more is collected, and nothing has to be shown. -/
theorem throw (fault : Fault) : Holding pool K (MonadExcept.throw fault : Decode α) :=
  ⟨.throw trivial⟩

/-- The second step may rely on the pool that the first one left, and on what it came to. -/
theorem bind_of_ok {m : Decode α} {f : α → Decode β} (hm : Holding pool K m)
    (hf : ∀ s a t, s.pool.Like pool → m s = .ok a t → Holding pool K (f a)) :
    Holding pool K (m >>= f) :=
  ⟨hm.keeps.bind_of_ok fun s a t hs hrun => (hf s a t hs.1 hrun).keeps⟩

/-- Two steps in a row keep the property if both do. The pool stays like the one that was read. -/
theorem bind {m : Decode α} {f : α → Decode β} (hm : Holding pool K m)
    (hf : ∀ a, Holding pool K (f a)) : Holding pool K (m >>= f) :=
  hm.bind_of_ok fun _ a _ _ _ => hf a

/-- What is looked up in the state may be anything but the collected part. Its pool is like the one
that was read. -/
theorem look {k : Decoder → Decode α}
    (hk : ∀ s : Decoder, s.pool.Like pool → Holding pool K (k s)) : Holding pool K (get >>= k) :=
  ⟨fun s hs => (hk s hs.1).keeps s hs⟩

theorem modify {f : Decoder → Decoder} (hpool : ∀ s, (f s).pool = s.pool)
    (hcollected : ∀ s, (f s).collected = s.collected) : Holding pool K (modify f) :=
  ⟨.modify fun s hs => hs.of_eq (hpool s) (hcollected s)⟩

theorem read {reader : Reader α} : Holding pool K (read reader) :=
  ⟨.read (fun _ _ hs => hs) fun _ _ _ _ => trivial⟩

/-- The body of an attribute has another input, which does not matter here. -/
theorem within {bytes : Bytes} {m : Decode α} (hm : Holding pool K m) :
    Holding pool K (within bytes m) :=
  ⟨.within (fun _ _ hs => hs) hm.keeps⟩

theorem ask (question : Pool → Except Fault α) : Holding pool K (ask question) :=
  ⟨.ask fun _ _ _ => trivial⟩

theorem classAt (index : UInt16) : Holding pool K (classAt index) :=
  bind (ask _) fun _ => pure _

theorem record : Holding pool K record := by
  refine look fun s _ => ?_
  cases s.record with
  | some record => exact pure record
  | none => exact throw .noHeader

theorem updateRecord (f : Record → Record) : Holding pool K (updateRecord f) :=
  bind record fun _ => modify (fun _ => rfl) fun _ => rfl

theorem updateMember (f : Member → Member) : Holding pool K (updateMember f) := by
  refine modify (fun s => ?_) fun s => ?_ <;> cases s.last <;> rfl

theorem finish : Holding pool K finish := by
  refine look fun s _ => ?_
  cases s.record with
  | some record => exact pure _
  | none => exact throw .noRecord

/-! ### References -/

section Kept

variable {walks : Prop} (h : Collected.Kept c pool walks K)
include h

/-- What the listener hears is not among what is collected. -/
theorem tell (event : Event) : Holding pool K (tell c event) := by
  refine ⟨.modify fun s hs => ⟨?_, h.told event hs.2⟩⟩
  rw [Decoder.told]
  cases c.listener <;> exact hs.1

/-- A type that is referred to must be one that the pool names, for then it is one that the property
allows. -/
theorem refer {type : TypeName} (htype : pool.Names walks type) (access : Access) :
    Holding pool K (refer c type access) := by
  refine ⟨fun s hs => ?_⟩
  have hreferred : (s.withCollected (s.collected.refer c.namer type access)).Holds pool K :=
    ⟨hs.1, h.refer access htype hs.2⟩
  rw [refer_told]
  by_cases htakes : s.collected.Takes c.namer type
  · rw [if_pos htakes]
    exact (tell h _).keeps _ hreferred
  · rw [if_neg htakes]
    exact hreferred

/-- The names that are found in a text are types that the pool names, since the text is one of the
pool. -/
theorem referText {index : UInt16} {text : String} (htext : pool.utf8 index = .ok text)
    (access : Access) : Holding pool K (referText c text access) := by
  have hmentions (names : List String) (hnames : names ⊆ (Signature.scan text).names) :
      Holding pool K (names.forM (mention c access)) := by
    induction names with
    | nil => exact pure ()
    | cons name names ih =>
      obtain ⟨hname, hrest⟩ := List.cons_subset.1 hnames
      refine bind (bind (tell h _) fun _ => ?_) fun _ => ih hrest
      exact refer h (.descriptor htext hname) access
  refine bind (hmentions _ (List.Subset.refl _)) fun _ => ?_
  cases (Signature.scan text).fault with
  | none => exact pure ()
  | some fault => exact throw fault

/-- A descriptor is a text of the pool, and its names are referred to as far as they are well
formed. -/
theorem referDescriptor (index : UInt16) (access : Access) :
    Holding pool K (referDescriptor c index access) := by
  refine bind_of_ok (ask _) fun s text t hlike hrun => ?_
  exact referText h ((Pool.Question.utf8 index).ok_of_like hlike (ok_of_utf8 hrun).1) access

/-- A class at an index is named by a class constant. -/
theorem referClass (index : UInt16) (access : Access) :
    Holding pool K (referClass c index access) := by
  refine bind_of_ok (classAt index) fun s type t hlike hrun => ?_
  obtain ⟨name, hname, rfl, rfl⟩ := ok_of_classAt hrun
  have hnames : pool.Names walks (.ofText name) :=
    .constant ((Pool.Question.className index).ok_of_like hlike hname)
  exact bind (refer h hnames access) fun _ => pure _

/-- A class constant that is met is referred to by the name that it has in the pool. -/
theorem constant (index : UInt16) : Holding pool K (referClassConstant c index) := by
  rw [referClassConstant_eq]
  refine bind_of_ok ⟨fun s hs => ?_⟩ fun s name t hlike hrun => ?_
  · exact ⟨(Pool.like_markReferred _ index).trans hs.1, hs.2⟩
  · cases hrun
    cases hname : (s.pool.markReferred index).1 with
    | none => exact pure ()
    | some name =>
      have hclass := Pool.className_of_markReferred hname
      exact refer h (.constant ((Pool.Question.className index).ok_of_like hlike hclass)) 0

/-- A class that code loads is named by a string constant. This is the only way in which such a
constant is referred to, and it takes a walk through code. -/
theorem loadClass (hwalks : walks) (constant : UInt16) : Holding pool K (loadClass c constant) := by
  refine look fun s hlike => ?_
  cases htext : s.pool.stringConstant constant with
  | none => exact pure _
  | some text =>
    have hnames : pool.Names walks (.ofDotted text) :=
      .string hwalks ((congrFun (Pool.Question.stringConstant hlike) constant).symm.trans htext)
    dsimp only
    split
    · exact bind (refer h hnames 0) fun _ => pure none
    · exact pure none

theorem referring : Referring c c fun m _ => Holding pool K m where
  pure := pure
  bind := bind
  throw _ := throw _
  ask _ := ask _
  referDescriptor := referDescriptor h
  referClass := referClass h

theorem pooled : Pooled c c fun m _ => Holding pool K m where
  toReferring := referring h
  constant := constant h
  lookPool hk := look fun s _ => hk s s (.refl _)

/-- What is done about attributes keeps the property, but for annotations and method bodies. -/
theorem detailing : Detailing c c fun m _ => Holding pool K m where
  toAsking := (referring h).toAsking
  look hk := look fun s _ => hk s s rfl
  constant := constant h
  take _ := read
  within := within
  tell _ := tell h _
  updateRecord _ := updateRecord _
  updateMember _ := updateMember _
  keepDefaultOf := (referring h).keepDefaultOf (d := c) (fun hk => look fun s _ => hk s s rfl)
    (fun _ => tell h _) fun _ => updateMember _
  keepInnerClass _ := bind (tell h _) fun _ => updateRecord _
  keepEnclosingMethod _ := bind (tell h _) fun _ => updateRecord _

theorem attempt (index : UInt16) (access : Access) :
    Holding pool K (succeeds (Decode.referDescriptor c index access)) :=
  ⟨.succeeds (referDescriptor h index access).keeps⟩

/-- A signature is a text of the pool as well, and it need not be well formed for its names to be
referred to. -/
theorem signatureAttribute (site : Site) (access : Access) :
    Holding pool K (signatureAttribute c site access) :=
  bind read fun index =>
    (detailing h).signatureAt (attempt h index access) (fun _ => updateMember _) site

/-- So does what is done about method bodies that are walked through. -/
theorem stepwise (hwalks : walks) : Stepwise c c fun m _ => Holding pool K m :=
  { referring h, detailing h with
    call := fun index => by
      dsimp only [handlers]
      split
      · exact bind (ask _) fun _ => tell h _
      · exact pure ()
    loadClass := loadClass h hwalks
    attempt := attempt h }

/-- What is put on record of a class keeps it as well. -/
theorem recording : Recording c c fun m _ => Holding pool K m where
  toReferring := referring h
  lookScene hk := look fun s _ => hk s s rfl
  record := record
  updateHeaded _ := updateRecord _
  announce _ := tell h _
  attend _ := modify (fun _ => rfl) fun _ => rfl

/-- The pool of the header is gone through, and the class is opened. -/
theorem classHeaderOf {raw : RawHeader} (hpool : raw.constants = pool) {s t : Decoder}
    {header : Record × Bool} (hrun : classHeaderOf c raw s = .ok header t) (hs : K s.collected) :
    t.Holds pool K := by
  obtain ⟨u, name, hrefer, hname, rfl, hopen⟩ := classHeaderOf_eq_ok_iff.1 hrun
  have hfirst : Decoder.Holds pool K { s.told c (.version raw.minor raw.major) with
      pool := raw.constants } := ⟨hpool ▸ .refl _, h.told _ hs⟩
  have hu : u.Holds pool K := (pooled h).referPool.keeps.leads _ _ _ hfirst hrefer
  have hkeeps (record : Record) (hname : pool.Names walks record.name) :
      Holding pool K (openClass c record) := by
    refine bind ⟨.modify fun s hs => ⟨hs.1, h.opened ?_ hs.2⟩⟩ fun _ => ?_
    · intro packages hpackages
      split at hpackages
      · exact (Option.mem_some_iff.1 hpackages).symm
      · exact nomatch hpackages
    · exact bind (refer h hname _) fun _ => modify (fun _ => rfl) fun _ => rfl
  refine (hkeeps _ ?_).keeps.leads _ _ _ hu hopen
  exact .constant ((Pool.Question.className raw.name).ok_of_like hu.1 hname)

end Kept

/-- The type of an annotation is exposed and not referred to. So a property that only speaks of
references is kept anyway. -/
theorem annotationType {walks : Prop} (h : Collected.KeptExposed c pool walks K)
    (retention : Retention) (access : Access) (index : UInt16) :
    Holding pool K (annotationType c retention access index) := by
  refine bind (ask _) fun text => ?_
  cases retention with
  | compiled => exact pure _
  | runtime =>
    refine bind (referDescriptor h.toKept index 0) fun _ => bind ⟨fun s hs => ?_⟩ fun _ => pure _
    rw [expose_eq]
    exact ⟨hs.1, h.expose _ access hs.2⟩

/-- So do attributes, if the property stays when a type is exposed, -/
theorem attributeOf {walks : Prop} (h : Collected.KeptExposed c pool walks K)
    {onCode : Decode Unit} (hcode : Holding pool K onCode) (site : Site) (access : Access)
    (raw : RawAttribute) : Holding pool K (attributeOf c onCode site access raw) := by
  have hdetailing := detailing h.toKept
  refine bind (ask _) fun name => within ?_
  exact @Detailing.attributeBody _ _ _ hdetailing onCode onCode site access _
    (fun retention _ => annotationType h retention access)
    (fun _ => signatureAttribute h.toKept site access)
    (fun _ => hdetailing.exceptionsAttribute fun index => referClass h.toKept index access)
    fun _ => hcode

/-- So do tables of attributes, given that the bodies among them keep to it. -/
theorem attributesOf {walks : Prop} (h : Collected.KeptExposed c pool walks K)
    {onCode : Decode Unit} (hcode : Holding pool K onCode) (site : Site) (access : Access)
    (raws : List RawAttribute) : Holding pool K (attributesOf c onCode site access raws) :=
  @Asking.forM _ (detailing h.toKept).toAsking _ _ (Decode.attributeOf c onCode site access) raws
    fun raw _ => attributeOf h hcode site access raw

/-- And so do method bodies that are walked through. -/
theorem code {walks : Prop} (h : Collected.KeptExposed c pool walks K) (hwalks : walks) :
    Holding pool K (code c) := by
  have hstepwise := stepwise h.toKept hwalks
  exact hstepwise.code (fun retention => annotationType h retention 0)
    (signatureAttribute h.toKept) fun code => look fun s _ => hstepwise.walk s.targets code

/-- Everything after the name of the class keeps a property that stays when a type is exposed. -/
theorem memberwise {walks : Prop} (h : Collected.KeptExposed c pool walks K) (hwalks : walks) :
    Memberwise c c fun m _ => Holding pool K m where
  toStepwise := stepwise h.toKept hwalks
  annotationType := annotationType h
  lookScene hk := look fun s _ => hk s s rfl
  record := record
  updateHeaded _ := updateRecord _
  announce _ := tell h.toKept _
  attend _ := modify (fun _ => rfl) fun _ => rfl
  sign _ := updateMember _

end Holding

/-! ### The record -/

/-- What was collected is put on record in the end, so whatever is known of the collection is true
of the record. -/
theorem classBody_yields (c : Context) (orphan : Bool) :
    Yields (fun record t => record.references = t.references ∧ record.imports = t.imports ∧
      record.api = t.api) (classBody c orphan) := by
  refine .after fun _ => .after fun _ => .after fun _ => .after fun _ => .after fun _ => ?_
  refine .after fun _ => .after fun _ => .after fun _ => .after fun _ => .after fun _ => ?_
  refine .after fun _ s record t hrun => ?_
  obtain ⟨rfl, found, -, rfl⟩ := ok_of_finish hrun
  exact ⟨rfl, rfl, rfl⟩

/-- **What is known of all that was collected for a record**: any property that stays, and that
held before. -/
theorem classFile_collects {c : Context} {s t : Decoder} {record : Record}
    (hrun : classFile c s = .ok (some record) t) :
    ∃ raw rest, RawHeader.form.Fits raw ∧ s.input.rest = RawHeader.form.encode raw ++ rest ∧
      (record.references = t.references ∧ record.imports = t.imports ∧ record.api = t.api) ∧
      ∀ K, Collected.KeptExposed c raw.constants True K → K s.collected → K t.collected := by
  rw [classFile_eq] at hrun
  obtain ⟨⟨header, orphan⟩, u, hheader, hrest⟩ := EStateM.ok_of_bind hrun
  obtain ⟨raw, rest, hfits, hfront, hact⟩ := ((Parses.classHeader c).eq_ok_iff s _ u).1 hheader
  obtain ⟨v, hbody, rfl⟩ := afterHeader_ok hrest
  refine ⟨raw, rest, hfits, hfront, ?_, fun K hK hs => ?_⟩
  · have hrecord := classBody_yields c orphan _ _ _ hbody
    rw [Decoder.told]
    cases c.listener <;> exact hrecord
  · have hopened : u.Holds raw.constants K := Holding.classHeaderOf hK.toKept rfl hact hs
    have hstart := (Holding.tell hK.toKept (.classStart header)).keeps u hopened
    have hkept := ((Holding.memberwise hK trivial).classBody .finish orphan).keeps _ hstart
    rw [hbody] at hkept
    exact hK.told .classEnd hkept.2

end Decode

end ClassFile
