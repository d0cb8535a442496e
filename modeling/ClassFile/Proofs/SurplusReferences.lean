import ClassFile.Proofs.Collected
import ClassFile.Proofs.Collecting

/-!
# Decodings of which one has collected more

Two decodings go on in the same way when one of them has collected something on top of what the
other has. Both collect the same on their way, so the surplus stays what it was
(`ClassFile.Decoder.Exceeds`, `ClassFile.Decoder.memberwise_exceeds`). In the end the records
say the same of the class, and one has a few more references
(`ClassFile.Record.Exceeds`).

Packages are handed out from a table that both have to agree on. They do if the surplus types
leave no trace in it (`ClassFile.Namer.Ignores`). The usual namer keeps a trace of one package
only, the one that is filed under the name of the primitive package.
-/

namespace ClassFile

/-! ### Sets with a surplus -/

section Sets

variable {α : Type} [Ord α] [Std.TransOrd α]

/-- The first set has all that the second has, and whatever else it has is extra. -/
structure Surplus (extra : α → Prop) (xs ys : Std.ExtTreeSet α) : Prop where
  keeps : ∀ x ∈ ys, x ∈ xs
  excess : ∀ x ∈ xs, x ∈ ys ∨ extra x

namespace Surplus

variable {extra : α → Prop} {xs ys : Std.ExtTreeSet α}

theorem refl (xs : Std.ExtTreeSet α) : Surplus extra xs xs := ⟨fun _ h => h, fun _ h => .inl h⟩

/-- What both sets get is no surplus, even if one of them had it already. -/
theorem insert (h : Surplus extra xs ys) (x : α) : Surplus extra (xs.insert x) (ys.insert x) where
  keeps y hy := by
    rw [Std.ExtTreeSet.mem_insert] at hy ⊢
    exact hy.imp_right (h.keeps y)
  excess y hy := by
    rw [Std.ExtTreeSet.mem_insert] at hy
    rcases hy with hsame | hy
    · exact .inl (Std.ExtTreeSet.mem_insert.2 (.inl hsame))
    · exact (h.excess y hy).imp_left fun hmem => Std.ExtTreeSet.mem_insert.2 (.inr hmem)

/-- What the first set gets alone is surplus, and must be extra. It may be in the other set all the
same. -/
theorem insert_left [Std.LawfulEqOrd α] (h : Surplus extra xs ys) {x : α} (hx : extra x) :
    Surplus extra (xs.insert x) ys where
  keeps y hy := Std.ExtTreeSet.mem_insert.2 (.inr (h.keeps y hy))
  excess y hy := by
    rcases Std.ExtTreeSet.mem_insert.1 hy with hsame | hy
    · exact .inr (Std.LawfulEqOrd.eq_of_compare hsame ▸ hx)
    · exact h.excess y hy

/-- If nothing is extra there is no surplus, and the sets are equal. -/
theorem eq_of_none [Std.LawfulEqOrd α] (h : Surplus extra xs ys) (hnone : ∀ x, ¬extra x) :
    xs = ys :=
  Std.ExtTreeSet.ext_mem fun x => ⟨fun hx => (h.excess x hx).resolve_right (hnone x), h.keeps x⟩

/-! The sets of exposed packages are there for public classes only. -/

variable {found other : Option (Std.ExtTreeSet α)}

/-- Two sets of which one may have a surplus are both there, or both missing. -/
theorem isSome_eq (h : Option.Rel (Surplus extra) found other) : found.isSome = other.isSome := by
  cases h <;> rfl

/-- If both have a set then both get the element, and otherwise none does. -/
theorem map_insert (h : Option.Rel (Surplus extra) found other) (x : α) :
    Option.Rel (Surplus extra) (found.map (·.insert x)) (other.map (·.insert x)) := by
  cases h with
  | some h => exact .some (h.insert x)
  | none => exact .none

/-- Of two sets the first one may get an extra element. Where there are no sets nothing happens. -/
theorem map_insert_left [Std.LawfulEqOrd α] (h : Option.Rel (Surplus extra) found other) {x : α}
    (hx : extra x) : Option.Rel (Surplus extra) (found.map (·.insert x)) other := by
  cases h with
  | some h => exact .some (h.insert_left hx)
  | none => exact .none

/-- If nothing is extra then the sets are the same, for each has the elements of the other. -/
theorem map_eq_of_none [Std.LawfulEqOrd α] (h : Option.Rel (Surplus extra) found other)
    (hnone : ∀ x, ¬extra x) : found = other := by
  cases h with
  | some h => rw [h.eq_of_none hnone]
  | none => rfl

end Surplus

end Sets

/-! ### Packages of surplus types -/

namespace Namer

/-- To be asked for the packages of these types leaves no trace. -/
def Ignores (namer : Namer) (types : List TypeName) : Prop :=
  ∀ type ∈ types, ∀ table, (namer.packageOf type table).2 = table

/-- The package can be handed out for one of these types. -/
def HandsOut (namer : Namer) (types : List TypeName) (package : Package) : Prop :=
  ∃ type ∈ types, ∃ table, (namer.packageOf type table).1 = package

/-- Where packages are computed there is nothing to keep a trace: no table is changed by a
request. -/
theorem exact_ignores (types : List TypeName) : exact.Ignores types := fun _ _ _ => rfl

/-- Only what is filed under the name of the primitive package leaves a trace. -/
theorem shared_ignores {types : List TypeName} (h : ∀ type ∈ types,
    (Package.ofType type).primitive = false ∧
      (Package.ofType type).binary ≠ PackageTable.primitiveKey) : shared.Ignores types := by
  intro type htype table
  obtain ⟨hordinary, hbinary⟩ := h type htype
  have hkey : ¬((Package.ofType type).primitive = true ∨
      (Package.ofType type).binary = PackageTable.primitiveKey) := by
    rw [hordinary]
    exact fun hkey => hkey.elim Bool.false_ne_true hbinary
  change (PackageTable.handOut _ _).2 = table
  rw [PackageTable.handOut, if_neg hkey]

end Namer

/-! ### A surplus stays what it was -/

namespace Decoder

variable {namer : Namer} {types : List TypeName} {pool : Pool}

/-- The first has what the second has, and maybe some of the given types with their packages. -/
structure Collected.Exceeds (namer : Namer) (types : List TypeName) (found other : Collected) :
    Prop where
  session : found.session = other.session
  references : Surplus (· ∈ types) found.references other.references
  imports : Surplus (namer.HandsOut types) found.imports other.imports
  api : Option.Rel (Surplus (namer.HandsOut types)) found.api other.api

namespace Collected.Exceeds

variable {found other : Collected}

/-- A reference that both make adds the same to what they have collected, for their packages are the
same, whatever is surplus. -/
theorem refer (h : found.Exceeds namer types other) (type : TypeName) (access : Access) :
    (found.refer namer type access).Exceeds namer types (other.refer namer type access) := by
  rw [Collected.refer, Collected.refer, h.session]
  by_cases hprimitive : type.referent.isPrimitive
  · rw [if_pos hprimitive, if_pos hprimitive]
    exact h
  rw [if_neg hprimitive, if_neg hprimitive]
  by_cases hpackage : (namer.packageOf type.referent other.session.table).1.primitive
  · dsimp only
    rw [if_pos hpackage, if_pos hpackage]
    exact ⟨rfl, h.references, h.imports, h.api⟩
  dsimp only
  rw [if_neg hpackage, if_neg hpackage]
  refine ⟨rfl, h.references.insert _, h.imports.insert _, ?_⟩
  dsimp only
  split
  · exact Surplus.map_insert h.api _
  · exact h.api

/-- And so does a type that both expose, for its package is handed out alike to both. -/
theorem expose (h : found.Exceeds namer types other) (type : TypeName) (access : Access) :
    (found.expose namer type access).Exceeds namer types (other.expose namer type access) := by
  rw [Collected.expose, Collected.expose, h.session, Surplus.isSome_eq h.api]
  split
  · by_cases hpackage : (namer.packageOf type other.session.table).1.primitive
    · dsimp only
      rw [if_pos hpackage, if_pos hpackage]
      exact ⟨rfl, h.references, h.imports, h.api⟩
    dsimp only
    rw [if_neg hpackage, if_neg hpackage]
    exact ⟨rfl, h.references, h.imports, Surplus.map_insert h.api _⟩
  · exact h

/-- What only the first decoder refers to is part of the surplus, if it is one of the given types or
cannot be referred to at all. -/
theorem refer_left (hignores : namer.Ignores types) (h : found.Exceeds namer types other)
    {type : TypeName} (htype : type.referent.isPrimitive = false → type.referent ∈ types)
    (access : Access) : (found.refer namer type access).Exceeds namer types other := by
  rw [Collected.refer]
  by_cases hprimitive : type.referent.isPrimitive
  · rw [if_pos hprimitive]
    exact h
  rw [if_neg hprimitive]
  have htype := htype (Bool.eq_false_iff.2 hprimitive)
  have htable := hignores _ htype found.session.table
  dsimp only
  rw [htable]
  split
  · exact h
  have hextra : namer.HandsOut types (namer.packageOf type.referent found.session.table).1 :=
    ⟨_, htype, _, rfl⟩
  refine ⟨h.session, h.references.insert_left htype, h.imports.insert_left hextra, ?_⟩
  dsimp only
  split
  · exact Surplus.map_insert_left h.api hextra
  · exact h.api

end Collected.Exceeds

/-- The decoders are the same but for what they have collected. The first has collected more,
but nothing besides the given types and their packages, if these leave no trace. -/
structure Exceeds (namer : Namer) (types : List TypeName) (pool : Pool) (s t : Decoder) :
    Prop where
  bare : s.bare = t.bare
  like : s.pool.Like pool
  collected : namer.Ignores types → s.collected.Exceeds namer types t.collected

namespace Exceeds

variable {s t : Decoder}

/-- Both decoders change in the same way, but not in what they have collected. -/
theorem put (h : s.Exceeds namer types pool t) {s' t' : Decoder} (hbare : s'.bare = t'.bare)
    (hpool : s'.pool = s.pool) (hs : s'.collected = s.collected)
    (ht : t'.collected = t.collected) : s'.Exceeds namer types pool t' where
  bare := hbare
  like := hpool ▸ h.like
  collected hignores := by
    rw [hs, ht]
    exact h.collected hignores

/-- Decoders that are the same have no surplus over each other. -/
theorem refl (namer : Namer) (types : List TypeName) (hlike : s.pool.Like pool) :
    s.Exceeds namer types pool s := by
  have hapi : Option.Rel (Surplus (namer.HandsOut types)) s.api s.api := by
    cases s.api with
    | none => exact .none
    | some api => exact .some (.refl api)
  exact ⟨rfl, hlike, fun _ => ⟨rfl, .refl _, .refl _, hapi⟩⟩

/-- What one of the decoders has read, the other one has read as well. -/
theorem sameInput : Decode.SameInput (Exceeds namer types pool) where
  input h := (congrArg Decoder.input h.bare :)
  withInput input h :=
    h.put (congrArg (fun s : Decoder => { s with input := input }) h.bare) rfl rfl rfl

/-- Both pools are the same, so all questions have the same answers, marks included. -/
theorem pool_eq (h : s.Exceeds namer types pool t) : s.pool = t.pool :=
  (congrArg Decoder.pool h.bare :)

/-- So are both records, until what was collected is put into them at the end. -/
theorem record_eq (h : s.Exceeds namer types pool t) : s.record = t.record :=
  (congrArg Decoder.record h.bare :)

/-- Whatever happens to the records happens to both, and has nothing to do with the surplus. -/
theorem withRecord (h : s.Exceeds namer types pool t) (found : Option Record) :
    Exceeds namer types pool { s with record := found } { t with record := found } :=
  h.put (congrArg (fun s : Decoder => { s with record := found }) h.bare) rfl rfl rfl

end Exceeds

end Decoder

namespace Decode

variable {namer : Namer} {types : List TypeName} {pool : Pool}

/-- What both decoders collect is no surplus: a step that does nothing but collect keeps the first
ahead by the given types, if what it collects does. -/
theorem collect_exceeds {m : Decode Unit} {f : Decoder.Collected → Decoder.Collected}
    (hcollects : Collects m) (hrun : ∀ s, m s = .ok () (s.withCollected (f s.collected)))
    (hf : ∀ {found other : Decoder.Collected}, found.Exceeds namer types other →
      (f found).Exceeds namer types (f other)) :
    Simulates Eq (Decoder.Exceeds namer types pool) m m := by
  intro s t hst
  have hbare (s : Decoder) := hcollects.bare_of_ok (hrun s)
  rw [hrun, hrun]
  refine .ok ⟨(hbare s).trans (hst.bare.trans (hbare t).symm), hst.like, fun hignores => ?_⟩
  rw [Decoder.collected_withCollected, Decoder.collected_withCollected]
  exact hf (hst.collected hignores)

/-- What both refer to keeps the surplus, be it one of its types or not. -/
theorem refer_exceeds (type : TypeName) (access : Access) :
    Simulates Eq (Decoder.Exceeds namer types pool) (refer ⟨namer, none⟩ type access)
      (refer ⟨namer, none⟩ type access) :=
  collect_exceeds (.refer type access) (refer_eq namer type access) fun h => h.refer type access

theorem expose_exceeds (type : TypeName) (access : Access) :
    Simulates Eq (Decoder.Exceeds namer types pool) (expose ⟨namer, none⟩ type access)
      (expose ⟨namer, none⟩ type access) :=
  collect_exceeds (.expose type access) (expose_eq ⟨namer, none⟩ type access)
    fun h => h.expose type access

/-- All that a text names is referred to by both of them, and none of the steps in between can tell
them apart. -/
theorem naming_exceeds :
    Naming ⟨namer, none⟩ ⟨namer, none⟩ (Simulates Eq (Decoder.Exceeds namer types pool)) where
  pure := Simulates.pure
  bind := Simulates.bind
  throw _ := Simulates.throw rfl
  ask {_ question} _ s t hst := by
    rw [ask, ask, hst.pool_eq]
    cases question t.pool with
    | ok value => exact .ok hst
    | error fault => exact .error rfl hst
  named _ := fun _ _ hst => .ok hst
  refer := refer_exceeds

/-- A class constant is met by both, and is marked for both or for none. -/
theorem constant_exceeds (index : UInt16) :
    Simulates Eq (Decoder.Exceeds namer types pool) (referClassConstant ⟨namer, none⟩ index)
      (referClassConstant ⟨namer, none⟩ index) := by
  rw [referClassConstant_eq]
  refine Simulates.bind (fun s t hst => ?_) fun name => ?_
  · have hmarked : (s.marked index).Exceeds namer types pool (t.marked index) :=
      ⟨Decoder.bare_marked hst.bare index, (Pool.like_markReferred _ index).trans hst.like,
        hst.collected⟩
    change Alike _ _ (.ok (s.pool.markReferred index).1 (s.marked index)) _
    rw [hst.pool_eq]
    exact .ok hmarked
  · cases name with
    | some name => exact refer_exceeds _ 0
    | none => exact Simulates.pure ()

/-- A record is changed by both, in the same way. Where there is no record both fail. -/
theorem updateRecord_exceeds (f : Record → Record) :
    Simulates Eq (Decoder.Exceeds namer types pool) (updateRecord f) (updateRecord f) := by
  refine .updateRecord rfl (fun hst => congrArg Option.isSome hst.record_eq) fun {s t} hst => ?_
  rw [hst.record_eq]
  exact hst.withRecord _

/-- And so is the member that was added last. -/
theorem updateMember_exceeds (f : Member → Member) :
    Simulates Eq (Decoder.Exceeds namer types pool) (updateMember f) (updateMember f) := by
  refine Simulates.modify fun s t hst => ?_
  have hlast : s.last = t.last := (congrArg Decoder.last hst.bare :)
  cases ht : t.last with
  | none =>
    rw [hlast.trans ht]
    exact hst
  | some last =>
    let put (s : Decoder) : Decoder :=
      { s with record := s.record.map (·.updateLast last f), last := some last }
    rw [hlast.trans ht]
    exact hst.put (congrArg put hst.bare) rfl rfl rfl

/-- A look at the scene shows both the same: surplus types are not to be seen from there. -/
theorem lookScene_exceeds {α : Type} {k k' : Decoder → Decode α}
    (hk : ∀ s t, s.scene = t.scene →
      Simulates Eq (Decoder.Exceeds namer types pool) (k s) (k' t)) :
    Simulates Eq (Decoder.Exceeds namer types pool) (get >>= k) (get >>= k') :=
  fun s t hst => hk s t (congrArg Decoder.scene hst.bare :) s t hst

/-- The readers of attributes are made of these steps, so they go on side by side. -/
theorem elementary_exceeds :
    Elementary ⟨namer, none⟩ ⟨namer, none⟩ (Simulates Eq (Decoder.Exceeds namer types pool)) where
  toNaming := naming_exceeds
  take _ := Simulates.read (fun _ => rfl) Decoder.Exceeds.sameInput _
  within := Simulates.within Decoder.Exceeds.sameInput
  look hk := lookScene_exceeds fun s t hst => hk s t <|
    congrArg (fun scene : Decoder.Scene => (⟨scene.last, scene.record.bind (·.methods.back?),
      scene.pool.stringConstant⟩ : Decoder.Glance)) hst
  constant := constant_exceeds
  call index := by
    rw [method_eq_pure]
    exact Simulates.pure ()
  tell _ := fun _ _ hst => .ok hst
  expose := expose_exceeds
  attempt index access := (naming_exceeds.referDescriptor index access).succeeds
  updateRecord _ := updateRecord_exceeds _
  updateMember _ := updateMember_exceeds _

/-- **Everything after the name of a class keeps the surplus.** All that happens there happens to
both decoders, so the surplus stays what it was when the name came. -/
theorem memberwise_exceeds :
    Memberwise ⟨namer, none⟩ ⟨namer, none⟩ (Simulates Eq (Decoder.Exceeds namer types pool)) where
  toLockstep := elementary_exceeds.lockstep
  lookScene := lookScene_exceeds
  record := lookScene_exceeds fun s t hst => by
    rw [show s.record = t.record from congrArg Decoder.Scene.record hst]
    cases t.record with
    | some found => exact Simulates.pure found
    | none => exact Simulates.throw rfl
  updateHeaded _ := updateRecord_exceeds _
  announce _ := fun _ _ hst => .ok hst
  attend g := Simulates.modify fun s t hst =>
    hst.put (congrArg (fun s : Decoder => s.attend (g s.scene)) hst.bare) rfl rfl rfl
  sign _ := updateMember_exceeds _

/-! ### What only the first decoder names -/

/-- To refer to one of the surplus types is as good as doing nothing, to the decoder that does not
do it. -/
theorem refer_left_exceeds {type : TypeName}
    (htype : type.referent.isPrimitive = false → type.referent ∈ types) (access : Access) :
    Simulates Eq (Decoder.Exceeds namer types pool) (refer ⟨namer, none⟩ type access)
      (pure ()) := by
  intro s t hst
  have hbare := (Collects.refer type access).bare_of_ok (refer_eq namer type access s)
  rw [refer_eq]
  refine .ok ⟨hbare.trans hst.bare, hst.like, fun hignores => ?_⟩
  rw [Decoder.collected_withCollected]
  exact (hst.collected hignores).refer_left hignores htype access

/-- So is to mention them one after the other, as when a text is read by one of the decoders
only. -/
theorem mentions_left_exceed {names : List String} (hnames : ∀ name ∈ names,
      (TypeName.ofText name).referent.isPrimitive = false → (TypeName.ofText name).referent ∈ types)
    (access : Access) :
    Simulates Eq (Decoder.Exceeds namer types pool) (names.forM (mention ⟨namer, none⟩ access))
      (pure ()) := by
  induction names with
  | nil => exact Simulates.pure ()
  | cons name names ih =>
    obtain ⟨hname, hnames⟩ := List.forall_mem_cons.1 hnames
    have htell : Simulates Eq (Decoder.Exceeds namer types pool)
        (tell ⟨namer, none⟩ (.named (.ofText name))) (pure ()) := fun _ _ hst => .ok hst
    have hmention : Simulates Eq (Decoder.Exceeds namer types pool)
        (mention ⟨namer, none⟩ access name) (pure () >>= fun _ => pure ()) :=
      htell.bind fun _ => refer_left_exceeds hname access
    have hboth : Simulates Eq (Decoder.Exceeds namer types pool)
        (mention ⟨namer, none⟩ access name >>= fun _ => names.forM (mention ⟨namer, none⟩ access))
        ((pure () >>= fun _ => pure ()) >>= fun _ => pure ()) := hmention.bind fun _ => ih hnames
    exact hboth

end Decode

/-! ### Records -/

/-- A record without what was collected. -/
def Record.uncollected (record : Record) : Record :=
  { record with references := ∅, imports := ∅, api := record.api.map fun _ => ∅ }

/-- The records are the same but for what was collected. The first has more references, but
none besides the given types, if these leave no trace. -/
structure Record.Exceeds (namer : Namer) (types : List TypeName) (record other : Record) :
    Prop where
  uncollected : record.uncollected = other.uncollected
  references : namer.Ignores types → Surplus (· ∈ types) record.references other.references
  imports : namer.Ignores types → Surplus (namer.HandsOut types) record.imports other.imports
  api : namer.Ignores types → Option.Rel (Surplus (namer.HandsOut types)) record.api other.api

/-- Without surplus types the records are the same: all else agrees, and the sets are equal. -/
theorem Record.Exceeds.eq {namer : Namer} {record other : Record}
    (h : record.Exceeds namer [] other) : record = other := by
  have hignores : namer.Ignores [] := List.forall_mem_nil _
  have hpackage (package : Package) : ¬namer.HandsOut [] package :=
    fun ⟨_, htype, _⟩ => List.not_mem_nil htype
  have hreferences := (h.references hignores).eq_of_none fun _ => List.not_mem_nil
  have himports := (h.imports hignores).eq_of_none hpackage
  have hapi := Surplus.map_eq_of_none (h.api hignores) hpackage
  have hcollect (record : Record) : { record.uncollected with
      references := record.references, imports := record.imports, api := record.api } = record :=
    rfl
  rw [← hcollect record, h.uncollected, hreferences, himports, hapi]
  exact hcollect other

/-- What is put into the records at the end exceeds in the same way as the sets that were
collected. -/
theorem Decode.finish_exceeds {namer : Namer} {types : List TypeName} {pool : Pool}
    {s s' t : Decoder} {record : Record} (hst : s.Exceeds namer types pool t)
    (hrun : finish s = .ok record s') :
    s' = s ∧ ∃ other, finish t = .ok other t ∧ record.Exceeds namer types other := by
  cases ht : t.record with
  | none =>
    have hs : s.record = none := hst.record_eq.trans ht
    obtain ⟨input, pool, session, references, imports, api, _, last, walking, targets, notes⟩ := s
    cases hs
    cases hrun
  | some found =>
    rw [finish_of_some (hst.record_eq.trans ht)] at hrun
    cases hrun
    have hapi : s.api.map (fun _ => (∅ : PackageSet)) = t.api.map fun _ => ∅ :=
      congrArg Decoder.api hst.bare
    refine ⟨rfl, _, finish_of_some ht, ?_, ?_, ?_, ?_⟩
    · rw [Record.uncollected, Record.uncollected, hapi]
    · exact fun hignores => (hst.collected hignores).references
    · exact fun hignores => (hst.collected hignores).imports
    · exact fun hignores => (hst.collected hignores).api

end ClassFile
