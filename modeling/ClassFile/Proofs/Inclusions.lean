import ClassFile.Proofs.Gathering

/-!
# Decodings of which one gathers more

One decoding may go through parts of a class file that another one passes over: hidden members, or
method bodies. Nothing there can be seen, so both expose the same packages
(`ClassFile.Decoder.Gathered.SameApi`). Where all class constants are marked from the start, none is
referred to when it is met again, and two more things can be said. What the second decoding has
gathered, the first one has gathered too (`ClassFile.Decoder.Gathered.Includes`); and what it refers
to on top is accounted for by the parts that it went through alone
(`ClassFile.Decoder.Gathered.Accounts`).

Packages are handed out from tables that may differ by then. What is exposed is the same up to the
packages whose answers change. But if only types of ordinary packages are asked for in advance then
no type loses its package, for namers that are *generous* (`ClassFile.Namer.Generous`).
-/

namespace ClassFile

/-! ### Pools that were just read -/

/-- The reader comes to no class constant with a mark. -/
def Reader.Unmarked (m : Reader Entry) : Prop :=
  ∀ input found rest, m input = .ok found rest → found.unmarked = found

namespace Reader.Unmarked

theorem pure {entry : Entry} (h : entry.unmarked = entry) : Unmarked (Pure.pure entry) := by
  intro input found rest hrun
  cases hrun
  exact h

theorem throw (fault : Fault) : Unmarked (MonadExcept.throw fault) := fun _ _ _ hrun => nomatch hrun

/-- What is read last decides, since what is read before it goes into it only as numbers. -/
theorem bind {α : Type} {m : Reader α} {f : α → Reader Entry} (hf : ∀ a, Unmarked (f a)) :
    Unmarked (m >>= f) := by
  intro input found rest hrun
  obtain ⟨a, middle, -, hlast⟩ := EStateM.ok_of_bind hrun
  exact hf a middle found rest hlast

/-- No class constant is marked when its entry is read, whatever its tag is. -/
theorem entry (tag : UInt8) (slot : Nat) : Unmarked (Entry.read tag slot) := by
  rw [Entry.read]
  split
  case h_2 => exact throw _
  case h_9 | h_10 | h_11 | h_12 => exact bind fun _ => bind fun _ => pure rfl
  case h_13 =>
    split
    · exact bind fun _ => pure rfl
    · exact throw _
  all_goals exact bind fun _ => pure rfl

end Reader.Unmarked

/-- What stands in a slot of a pool that was just read: nothing was put there, or what was read for
it. Nothing is ever read for slot zero. -/
inductive Entry.Fresh (slot : Nat) : Entry → Prop where
  | unused : Fresh slot .unused
  | read {tag : UInt8} {input rest : Input} {found : Entry} : slot ≠ 0 →
    Entry.read tag slot input = .ok found rest → Fresh slot found

/-- An entry that was just read has no mark, nor has a slot in which nothing was put. -/
theorem Entry.Fresh.unmarked {slot : Nat} {entry : Entry} (h : entry.Fresh slot) :
    entry.unmarked = entry := by
  cases h with
  | unused => rfl
  | read _ hread => exact Reader.Unmarked.entry _ _ _ _ _ hread

/-- The slot zero holds nothing, since no entry is read for it. -/
theorem Entry.Fresh.of_zero {entry : Entry} (h : entry.Fresh 0) : entry = .unused := by
  cases h with
  | unused => rfl
  | read hslot _ => exact absurd rfl hslot

namespace Pool

open Filling in
/-- The slots that are filled hold what was read for them, and no slot is filled twice. By induction
over the slots that are left. -/
theorem fresh_fill {room slot : Nat} {filling filled : Filling}
    (h : fill room slot filling = .ok () filled) (hslot : slot ≠ 0)
    (hfresh : ∀ other (entry : Entry), filling.pool.entries[other]? = some entry →
      entry.Fresh other) (other : Nat) (entry : Entry)
    (hother : filled.pool.entries[other]? = some entry) : entry.Fresh other := by
  induction room using Nat.strongRecOn generalizing slot filling with
  | ind room ih =>
    cases room with
    | zero =>
      cases h
      exact hfresh other entry hother
    | succ room =>
      rw [fill_succ] at h
      obtain ⟨tag, _, htag, hrest⟩ := EStateM.ok_of_bind h
      obtain ⟨rest, -, rfl⟩ := field_eq_ok_iff.1 htag
      split at hrest
      -- the tag of zero ends the table
      · cases hrest
        exact hfresh other entry hother
      · obtain ⟨found, _, hentry, hrest⟩ := EStateM.ok_of_bind hrest
        obtain ⟨rest', hread, rfl⟩ := field_eq_ok_iff.1 hentry
        obtain ⟨_, _, hstore, hrest⟩ := EStateM.ok_of_bind hrest
        cases hstore
        have hwidth := found.width_pos
        refine ih _ (by omega) hrest (by omega) fun other entry hother => ?_
        change (filling.pool.entries.setIfInBounds slot found)[other]? = _ at hother
        rw [Array.getElem?_setIfInBounds] at hother
        split at hother
        · rename_i hsame
          split at hother
          · cases Option.some.inj hother
            exact hsame ▸ .read hslot hread
          · cases hother
        · exact hfresh other entry hother

open Filling in
/-- A pool that was just read holds what was read for it, whatever it held before. -/
theorem fresh_read {u : Unit} {filling filled : Filling} (h : read filling = .ok u filled)
    {slot : Nat} {entry : Entry} (hentry : filled.pool.entries[slot]? = some entry) :
    entry.Fresh slot := by
  obtain ⟨count, between, hcount, hrest⟩ := EStateM.ok_of_bind h
  by_cases hzero : count = 0
  · rw [if_pos hzero] at hrest
    cases hrest
  · rw [if_neg hzero] at hrest
    refine fresh_fill hrest Nat.one_ne_zero (fun other found hother => ?_) slot entry hentry
    change (Array.replicate count.toNat Entry.unused)[other]? = _ at hother
    rw [Array.getElem?_replicate] at hother
    split at hother
    · cases hother
      exact .unused
    · cases hother

end Pool

/-- The pool of a header holds what was read for it, so its slot zero is not used, and none of its
class constants is marked. -/
theorem RawHeader.fresh_constants (raw : RawHeader) {slot : Nat} {entry : Entry}
    (h : raw.constants.entries[slot]? = some entry) : entry.Fresh slot := by
  have hempty (h : Pool.empty.entries[slot]? = some entry) : entry.Fresh slot := nomatch h
  rw [RawHeader.constants, Pool.ofBytes] at h
  cases hread : Pool.read ⟨.ofBytes raw.pool, .empty⟩ with
  | error fault filled =>
    rw [hread] at h
    exact hempty h
  | ok _ filled =>
    rw [hread] at h
    obtain ⟨⟨offset, rest⟩, pool⟩ := filled
    cases rest with
    | nil => exact Pool.fresh_read hread h
    | cons => exact hempty h

/-- So no class constant is marked there, and each class will be given out when it is first met. -/
theorem RawHeader.unmarked_constants (raw : RawHeader) (index : UInt16) :
    ¬raw.constants.Marked index := by
  rintro ⟨name, hname⟩
  cases (raw.fresh_constants hname).unmarked

/-! ### Types that are asked for in advance -/

namespace Namer

variable {namer : Namer}

/-- A relation of tables of which the first was asked for more types, of ordinary packages: a type
that has an ordinary package in the second table has the same in the first. -/
structure Favours (namer : Namer) (L : PackageTable → PackageTable → Prop) : Prop where
  refl (table : PackageTable) : L table table
  ask {left right : PackageTable} (type : TypeName) : L left right →
    L (namer.packageOf type left).2 (namer.packageOf type right).2
  ahead {left right : PackageTable} {type : TypeName} : (Package.ofType type).primitive = false →
    L left right → L (namer.packageOf type left).2 right
  /-- To ask a second time changes nothing. -/
  again {earlier later : PackageTable} {type : TypeName} :
    namer.Reaches (namer.packageOf type earlier).2 later → (namer.packageOf type later).2 = later
  ordinary {left right : PackageTable} {type : TypeName} : L left right →
    type.isPrimitive = false → (namer.packageOf type right).1.primitive = false →
    (namer.packageOf type left).1 = (namer.packageOf type right).1

/-- To ask for types of ordinary packages in advance takes its package away from no type. -/
def Generous (namer : Namer) : Prop := ∃ L, namer.Favours L

/-- Where packages are computed no type loses its own, however many are asked for in advance. -/
theorem exact_generous : exact.Generous :=
  ⟨fun _ _ => True, fun _ => trivial, fun _ _ => trivial, fun _ _ => trivial, fun _ => rfl,
    fun _ _ _ => rfl⟩

/-- The package is filed under the name of the primitive one. -/
def Filed (package : Package) : Prop :=
  package.primitive = true ∨ package.binary = PackageTable.primitiveKey

/-- The ordinary package of that name. -/
def namesake : Package := ⟨PackageTable.primitiveKey, false⟩

/-- There are two packages that are filed there: the primitive one, and the ordinary one of its
name. -/
theorem eq_namesake {package : Package} (h : Filed package)
    (hordinary : package.primitive = false) : package = namesake := by
  cases package
  cases hordinary
  cases h.resolve_left Bool.false_ne_true
  rfl

/-- For a type of one of the two the holder of the entry is handed out, and holds it from then on;
if nobody held it then it is the package of the type. -/
theorem shared_packageOf_of_filed {type : TypeName} (h : Filed (.ofType type))
    (table : PackageTable) : shared.packageOf type table =
      (table.holder.getD (.ofType type), ⟨some (table.holder.getD (.ofType type))⟩) := by
  obtain ⟨holder⟩ := table
  refine (if_pos h).trans ?_
  cases holder <;> rfl

/-- For any other type its own package is handed out, and the table stays. -/
theorem shared_packageOf_of_not_filed {type : TypeName} (h : ¬Filed (.ofType type))
    (table : PackageTable) : shared.packageOf type table = (.ofType type, table) :=
  if_neg h

/-- The namesake holds the entry of the primitive package in the first table, or the same package
holds it in both. In the second table nobody else holds it but the primitive package. -/
def Cedes (left right : PackageTable) : Prop :=
  left.holder = right.holder ∨ left.holder = some namesake ∧
    ∀ holder ∈ right.holder, holder.primitive = true ∨ holder = namesake

/-- If both are asked for the same type then the relation stays: whoever did not hold the entry
before holds it now. -/
theorem Cedes.ask {left right : PackageTable} (h : Cedes left right) (type : TypeName) :
    Cedes (shared.packageOf type left).2 (shared.packageOf type right).2 := by
  by_cases hfiled : Filed (.ofType type)
  · rw [shared_packageOf_of_filed hfiled, shared_packageOf_of_filed hfiled]
    obtain hsame | ⟨hleft, hright⟩ := h
    · rw [hsame]
      exact .inl rfl
    · refine .inr ⟨by rw [hleft]; rfl, fun holder hholder => ?_⟩
      obtain rfl := Option.some.inj hholder
      cases hnone : right.holder with
      | some found => exact hright found hnone
      | none =>
        cases hprimitive : (Package.ofType type).primitive with
        | true => exact .inl hprimitive
        | false => exact .inr (eq_namesake hfiled hprimitive)
  · rw [shared_packageOf_of_not_filed hfiled, shared_packageOf_of_not_filed hfiled]
    exact h

/-- An ordinary package that is asked for in advance, in the first table, can only be the
namesake. -/
theorem Cedes.ahead {left right : PackageTable} (h : Cedes left right) {type : TypeName}
    (hordinary : (Package.ofType type).primitive = false) :
    Cedes (shared.packageOf type left).2 right := by
  by_cases hfiled : Filed (.ofType type)
  · rw [shared_packageOf_of_filed hfiled, eq_namesake hfiled hordinary]
    cases hholder : left.holder with
    | some holder => exact h.imp hholder.symm.trans (And.imp_left hholder.symm.trans)
    | none =>
      have hright := (h.resolve_right fun h => nomatch hholder.symm.trans h.1).symm.trans hholder
      exact .inr ⟨rfl, fun _ hfound => nomatch hright.symm.trans hfound⟩
  · rw [shared_packageOf_of_not_filed hfiled]
    exact h

/-- An ordinary package that is handed out in the second table is handed out in the first one, too:
if it is the namesake, it holds the entry in both. -/
theorem Cedes.ordinary {left right : PackageTable} (h : Cedes left right) {type : TypeName}
    (hordinary : (shared.packageOf type right).1.primitive = false) :
    (shared.packageOf type left).1 = (shared.packageOf type right).1 := by
  by_cases hfiled : Filed (.ofType type)
  · rw [shared_packageOf_of_filed hfiled] at hordinary ⊢
    rw [shared_packageOf_of_filed hfiled]
    obtain hsame | ⟨hleft, hright⟩ := h
    · rw [hsame]
    · rw [hleft]
      cases hholder : right.holder with
      | none =>
        rw [hholder] at hordinary
        exact (eq_namesake hfiled hordinary).symm
      | some holder =>
        rw [hholder] at hordinary
        exact ((hright holder hholder).resolve_left (ne_true_of_eq_false hordinary)).symm
  · rw [shared_packageOf_of_not_filed hfiled, shared_packageOf_of_not_filed hfiled]

/-- Whoever asks for the name of the primitive package first, the ordinary package of that name does
no harm: all others get it then. -/
theorem shared_generous : shared.Generous := by
  refine ⟨Cedes, fun _ => .inl rfl, fun type h => h.ask type, fun hordinary h => h.ahead hordinary,
    fun {earlier later type} hlater => ?_, fun h _ hordinary => h.ordinary hordinary⟩
  by_cases hfiled : Filed (.ofType type)
  · rw [shared_packageOf_of_filed hfiled] at hlater ⊢
    obtain ⟨holder⟩ := later
    rw [show holder = _ from holder_of_reaches hlater rfl]
    rfl
  · rw [shared_packageOf_of_not_filed hfiled]

end Namer

namespace Decoder.Gathered

variable {namer : Namer} {L : PackageTable → PackageTable → Prop} {start found other : Gathered}

/-! ### Pools of which all class constants are marked -/

/-- All class constants are marked. -/
def Complete (pool : Pool) (found : Gathered) : Prop :=
  ∀ index name, pool.className index = .ok name → found.pool.Marked index

/-- That all class constants are marked stays so, for no mark is taken away. -/
theorem Complete.apply {pool : Pool} (h : found.Complete pool) (op : Gather) :
    (op.apply namer found).Complete pool :=
  fun index name hname => Gather.marked_apply (h index name hname)

/-- It makes no difference to meet one of them again: a marked constant is not given out any
more. -/
theorem Complete.constant (h : found.Complete start.pool) (hcomes : Comes namer start found)
    (index : UInt16) : ((Gather.constant index).apply namer found).collected = found.collected := by
  have hnone : (found.pool.markReferred index).1 = none := by
    refine Option.eq_none_iff_forall_ne_some.2 fun name hname => ?_
    obtain ⟨hfirst, hclass⟩ := Pool.markReferred_eq_some_iff.1 hname
    exact hfirst (h index name ((Pool.Question.className index).ok_of_like hcomes.like hclass))
  dsimp only [Gather.apply]
  rw [hnone]

/-! ### What is exposed -/

/-- Both decodings expose the same packages. -/
structure SameApi (namer : Namer) (start found other : Gathered) : Prop where
  left : Comes namer start found
  right : Comes namer start other
  isSome : found.collected.api.isSome = other.collected.api.isSome
  exposes (package : Package) : namer.Fixes start.collected.session.table package →
    (found.collected.Exposes package ↔ other.collected.Exposes package)

namespace SameApi

theorem refl (h : Comes namer start found) : SameApi namer start found found :=
  ⟨h, h, rfl, fun _ _ => .rfl⟩

/-- Both expose the same, if it can be seen at all. To this end their tables must agree on the
packages that are fixed. -/
theorem both (h : SameApi namer start found other) (op : Gather) :
    SameApi namer start (op.apply namer found) (op.apply namer other) where
  left := h.left.apply op
  right := h.right.apply op
  isSome := by
    rw [Gather.isSome_api_apply, Gather.isSome_api_apply]
    exact h.isSome
  exposes package hfixes := by
    rw [Gather.exposes_apply h.left.reached hfixes, Gather.exposes_apply h.right.reached hfixes,
      h.exposes package hfixes, h.isSome]

/-- What shows no package is as good as nothing, though it may change the references and the
table. -/
theorem alone (h : SameApi namer start found other) {op : Gather}
    (hhidden : ∀ package, ¬op.Shows namer start.collected.session.table package) :
    SameApi namer start (op.apply namer found) other where
  left := h.left.apply op
  right := h.right
  isSome := (Gather.isSome_api_apply namer op found).trans h.isSome
  exposes package hfixes := by
    rw [Gather.exposes_apply h.left.reached hfixes, h.exposes package hfixes]
    exact or_iff_left fun hshows => hhidden package hshows.2

/-- **To gather more exposes no more**, as long as what is gathered on top cannot be seen. Packages
that the namer fixes are compared, since the others may depend on the order. -/
theorem ahead (namer : Namer) (start : Gathered) :
    Ahead namer (fun _ => True) start.pool (SameApi namer start) where
  left h := h.left.like
  right h := h.right.like
  both op h := h.both op
  refer _ hhidden h := h.alone fun _ hshows => Bool.false_ne_true (hhidden.symm.trans hshows.1)
  constant _ h := h.alone fun _ => id

end SameApi

end Decoder.Gathered

/-! ### What is included -/

namespace Decoder.Collected

variable {namer : Namer} {L : PackageTable → PackageTable → Prop} {found other : Collected}
  {type : TypeName}

/-- What was collected there was collected here too. -/
structure Includes (L : PackageTable → PackageTable → Prop) (found other : Collected) : Prop where
  isSome : found.api.isSome = other.api.isSome
  references : ∀ type ∈ other.references, type ∈ found.references
  imports : ∀ package ∈ other.imports, package ∈ found.imports
  tables : L found.session.table other.session.table

namespace Includes

variable (hfavours : namer.Favours L)
include hfavours

/-- A type that both refer to is among the references of the first if it is among those of the
second. Its package may be withheld from the second alone, and not from the first. -/
theorem refer (h : Includes L found other) (type : TypeName) (access : Access) :
    Includes L (found.refer namer type access) (other.refer namer type access) where
  isSome := by
    rw [isSome_api_refer, isSome_api_refer]
    exact h.isSome
  references mentioned hmentioned := by
    rw [mem_references_refer] at hmentioned ⊢
    refine hmentioned.imp (h.references mentioned) (And.imp_left fun htakes => ⟨htakes.1, ?_⟩)
    rw [hfavours.ordinary h.tables htakes.1 htakes.2]
    exact htakes.2
  imports package hpackage := by
    rw [mem_imports_refer] at hpackage ⊢
    refine hpackage.imp (h.imports package) fun ⟨htakes, hsame⟩ => ?_
    have hanswer := hfavours.ordinary h.tables htakes.1 htakes.2
    exact ⟨⟨htakes.1, hanswer ▸ htakes.2⟩, hanswer.trans hsame⟩
  tables := by
    rw [table_refer, table_refer]
    split
    · exact h.tables
    · exact hfavours.ask _ h.tables

/-- A type that both expose is exposed by the first if it is by the second. -/
theorem expose (h : Includes L found other) (type : TypeName) (access : Access) :
    Includes L (found.expose namer type access) (other.expose namer type access) where
  isSome := by
    rw [isSome_api_expose, isSome_api_expose]
    exact h.isSome
  references := by
    rw [references_expose, references_expose]
    exact h.references
  imports := by
    rw [imports_expose, imports_expose]
    exact h.imports
  tables := by
    rw [table_expose, table_expose, h.isSome]
    split
    · exact hfavours.ask _ h.tables
    · exact h.tables

/-- The first may refer to more types, if it does no harm to ask for their packages. -/
theorem refer_ahead (h : Includes L found other) (access : Access)
    (htype : type.referent.isPrimitive = true ∨ (Package.ofType type.referent).primitive = false ∨
      found.Asked namer type.referent) : Includes L (found.refer namer type access) other where
  isSome := (isSome_api_refer type access found).trans h.isSome
  references mentioned hmentioned :=
    (mem_references_refer access).2 (.inl (h.references mentioned hmentioned))
  imports package hpackage := (mem_imports_refer access).2 (.inl (h.imports package hpackage))
  tables := by
    rw [table_refer]
    split
    · exact h.tables
    · rename_i hasks
      obtain hordinary | ⟨_, hasked⟩ := htype.resolve_left hasks
      · exact hfavours.ahead hordinary h.tables
      · rw [hfavours.again hasked]
        exact h.tables

end Includes

end Decoder.Collected

/-- To ask for the package of the type in advance does no harm: the package is an ordinary one, or
it is not asked for at all, or it was asked for when a class constant was met. -/
def Pool.Harmless (pool : Pool) (type : TypeName) : Prop :=
  type.isPrimitive = true ∨ (Package.ofType type).primitive = false ∨
    ∃ index name, pool.className index = .ok name ∧ (TypeName.ofText name).referent = type

namespace Decoder.Gathered

variable {namer : Namer} {L : PackageTable → PackageTable → Prop} {start found other : Gathered}

/-- What the second decoding has gathered, the first one has gathered too. All class constants were
met before. -/
structure Includes (namer : Namer) (L : PackageTable → PackageTable → Prop)
    (start found other : Gathered) : Prop where
  left : Comes namer start found
  right : Comes namer start other
  complete_left : found.Complete start.pool
  complete_right : other.Complete start.pool
  collected : found.collected.Includes L other.collected

namespace Includes

/-- What was gathered includes itself, if all class constants were met. -/
theorem refl (hfavours : namer.Favours L) (h : Comes namer start found)
    (hcomplete : found.Complete start.pool) : Includes namer L start found found :=
  ⟨h, h, hcomplete, hcomplete, rfl, fun _ => id, fun _ => id, hfavours.refl _⟩

/-- Whatever both gather, the first still includes what the second has. A constant is marked in both
pools, so none of them refers to it. -/
theorem both (hfavours : namer.Favours L) (h : Includes namer L start found other) (op : Gather) :
    Includes namer L start (op.apply namer found) (op.apply namer other) where
  left := h.left.apply op
  right := h.right.apply op
  complete_left := h.complete_left.apply op
  complete_right := h.complete_right.apply op
  collected := by
    cases op with
    | refer type access => exact h.collected.refer hfavours type access
    | expose type access => exact h.collected.expose hfavours type access
    | constant index =>
      rw [h.complete_left.constant h.left, h.complete_right.constant h.right]
      exact h.collected

/-- **To gather more keeps what was gathered**, if it does no harm: the additional types must not
take away the package of another one. -/
theorem ahead (hsteady : namer.Steady) (hfavours : namer.Favours L)
    (hfresh : ∀ index, ¬start.pool.Marked index) :
    Ahead namer start.pool.Harmless start.pool (Includes namer L start) where
  left h := h.left.like
  right h := h.right.like
  both op h := h.both hfavours op
  refer {found other type access} hharmless _ h := by
    refine ⟨h.left.apply _, h.right, h.complete_left.apply _, h.complete_right, ?_⟩
    refine h.collected.refer_ahead hfavours access ?_
    obtain hprimitive | hordinary | ⟨index, name, hname, hsame⟩ := hharmless
    · exact .inl hprimitive
    · exact .inr (.inl hordinary)
    · have hmet := h.left.met hsteady hfresh hname (h.complete_left index name hname)
      rw [hsame] at hmet
      exact hmet.imp_right fun hmet => .inr hmet.1
  constant index h := by
    refine ⟨h.left.apply _, h.right, h.complete_left.apply _, h.complete_right, ?_⟩
    rw [h.complete_left.constant h.left]
    exact h.collected

end Includes

/-! ### What is accounted for -/

/-- What the first decoding refers to on top is extra, or its package is primitive for the second
one. All class constants were met before. -/
structure Accounts (namer : Namer) (extra : TypeName → Prop) (start found other : Gathered) :
    Prop where
  left : Comes namer start found
  right : Comes namer start other
  complete_left : found.Complete start.pool
  complete_right : other.Complete start.pool
  excess : ∀ type ∈ found.collected.references, extra type ∨
    type ∈ other.collected.references ∨ other.collected.Asked namer type ∧
      (namer.packageOf type other.collected.session.table).1.primitive = true

namespace Accounts

variable {extra : TypeName → Prop}

/-- What was gathered accounts for itself. -/
theorem refl (h : Comes namer start found) (hcomplete : found.Complete start.pool) :
    Accounts namer extra start found found :=
  ⟨h, h, hcomplete, hcomplete, fun _ htype => .inr (.inl htype)⟩

/-- What was accounted for still is, whatever both gather afterwards: what is in the references for
the first time is there because both referred to it, or was withheld. -/
theorem excess_apply (hsteady : namer.Steady) (h : Accounts namer extra start found other)
    (op : Gather) {type : TypeName} (htype : type ∈ found.collected.references) : extra type ∨
      type ∈ (op.apply namer other).collected.references ∨
        (op.apply namer other).collected.Asked namer type ∧
          (namer.packageOf type (op.apply namer other).collected.session.table).1.primitive =
            true := by
  refine (h.excess type htype).imp_right (Or.imp Gather.mem_references_apply ?_)
  rintro ⟨hasked, hprimitive⟩
  have hreaches := op.reaches_apply namer other
  exact ⟨hasked.later hreaches, (hasked.packageOf_eq hsteady hreaches).symm ▸ hprimitive⟩

/-- Whatever both gather, the surplus is accounted for as before: a type that is new for the first
is new for the second as well, or its package is withheld from it. -/
theorem both (hsteady : namer.Steady) (h : Accounts namer extra start found other) (op : Gather) :
    Accounts namer extra start (op.apply namer found) (op.apply namer other) where
  left := h.left.apply op
  right := h.right.apply op
  complete_left := h.complete_left.apply op
  complete_right := h.complete_right.apply op
  excess type htype := by
    cases op with
    | expose other access =>
      exact h.excess_apply hsteady (.expose other access)
        (Collected.references_expose other access _ ▸ htype)
    | constant index =>
      rw [h.complete_left.constant h.left] at htype
      exact h.excess_apply hsteady (.constant index) htype
    | refer mentioned access =>
      obtain hbefore | ⟨htakes, rfl⟩ := (Collected.mem_references_refer access).1 htype
      · exact h.excess_apply hsteady (.refer mentioned access) hbefore
      · -- the second one mentions the type as well, so it has met it
        obtain hprimitive | ⟨hasked, hmet⟩ :=
          Collected.met_refer hsteady mentioned access other.collected
        · exact absurd hprimitive (ne_true_of_eq_false htakes.1)
        · exact .inr (hmet.imp_right fun hprimitive => ⟨hasked, hprimitive⟩)

/-- **What is gathered on top is accounted for**, if it is extra. What both gather was met by the
second decoding as well. -/
theorem ahead (hsteady : namer.Steady) (extra : TypeName → Prop) (start : Gathered) :
    Ahead namer extra start.pool (Accounts namer extra start) where
  left h := h.left.like
  right h := h.right.like
  both op h := h.both hsteady op
  refer {found other type access} hextra _ h := by
    refine ⟨h.left.apply _, h.right, h.complete_left.apply _, h.complete_right, ?_⟩
    intro mentioned hmentioned
    obtain hbefore | ⟨-, rfl⟩ := (Collected.mem_references_refer access).1 hmentioned
    · exact h.excess mentioned hbefore
    · exact .inl hextra
  constant index h := by
    refine ⟨h.left.apply _, h.right, h.complete_left.apply _, h.complete_right, ?_⟩
    rw [h.complete_left.constant h.left]
    exact h.excess

end Accounts

end Decoder.Gathered

end ClassFile
