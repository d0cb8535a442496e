import ClassFile.Proofs.Collecting
import ClassFile.Proofs.Provenance

/-!
# What is gathered

A decoding refers to types, exposes them, and meets class constants, of which each is referred to
the first time only. So what it has gathered is what was collected, and which constants are marked
(`ClassFile.Decoder.Gathered`), and there are three things that it does with these
(`ClassFile.Gather`).

Packages are handed out from a table that changes when it is asked. Seen from a table that was there
before, what is exposed does not depend on the changes, as far as the answers do not: if a package
is handed out for the same types all the time (`ClassFile.Namer.Fixes`). Where packages are computed
all packages are; the usual namer leaves one case open, the package that is filed under the name of
the primitive one.
-/

namespace ClassFile

/-! ### Marks -/

namespace Pool

/-- The class constant at an index is marked. -/
def Marked (pool : Pool) (index : UInt16) : Prop :=
  ∃ name, pool.entries[index.toNat]? = some (.classInfo name true)

variable {pool : Pool} {index : UInt16} {name : String}

/-- Only class constants have names of classes. So whoever got a name from an index knows the entry
that stands there, be it marked or not, and the text behind it. -/
theorem entry_of_className (h : pool.className index = .ok name) :
    ∃ nameIndex mark, pool.entries[index.toNat]? = some (.classInfo nameIndex mark) ∧
      pool.utf8 nameIndex = .ok name := by
  rw [className, entry] at h
  cases hentry : pool.entries[index.toNat]? with
  | none =>
    rw [hentry] at h
    cases h
  | some found =>
    rw [hentry] at h
    cases found with
    | classInfo nameIndex mark => exact ⟨nameIndex, mark, rfl, h⟩
    | _ => cases h

/-- A class is given out when it is met for the first time, and never again: the constant must not
be marked, and it must have a name. -/
theorem markReferred_eq_some_iff : (pool.markReferred index).1 = some name ↔
    ¬pool.Marked index ∧ pool.className index = .ok name := by
  constructor
  · refine fun h => ⟨?_, className_of_markReferred h⟩
    rintro ⟨nameIndex, hmarked⟩
    rw [markReferred, hmarked] at h
    cases h
  · rintro ⟨hfirst, hname⟩
    obtain ⟨nameIndex, mark, hentry, htext⟩ := entry_of_className hname
    cases mark with
    | true => exact absurd ⟨nameIndex, hentry⟩ hfirst
    | false =>
      have hsame := pool.utf8_markReferred index nameIndex name
      rw [markReferred, hentry] at hsame ⊢
      exact congrArg Except.toOption (hsame.2 htext)

/-- What is met is marked, and no mark is taken away. An index that leads to no class constant marks
nothing. -/
theorem marked_markReferred_iff {other : UInt16} :
    (pool.markReferred index).2.Marked other ↔ pool.Marked other ∨ index = other ∧
      ∃ nameIndex mark, pool.entries[index.toNat]? = some (.classInfo nameIndex mark) := by
  rw [markReferred]
  split
  · rename_i nameIndex hentry
    have hlt : index.toNat < pool.entries.size := (Array.getElem?_eq_some_iff.1 hentry).1
    rw [Marked, Array.getElem?_setIfInBounds]
    by_cases hsame : index = other
    · subst hsame
      rw [if_pos rfl, if_pos hlt]
      exact ⟨fun _ => .inr ⟨rfl, nameIndex, false, hentry⟩, fun _ => ⟨nameIndex, rfl⟩⟩
    · rw [if_neg fun h => hsame (UInt16.toNat_inj.1 h)]
      exact ⟨.inl, fun h => h.resolve_right fun h => hsame h.1⟩
  · rename_i hentry
    refine ⟨.inl, fun h => h.elim id ?_⟩
    rintro ⟨rfl, nameIndex, mark, hclass⟩
    cases mark with
    | true => exact ⟨nameIndex, hclass⟩
    | false => exact absurd hclass (hentry nameIndex)

/-- What has the name of a class is marked when it is met, whether it was marked before or not. -/
theorem marked_of_className (h : pool.className index = .ok name) :
    (pool.markReferred index).2.Marked index := by
  obtain ⟨nameIndex, mark, hentry, -⟩ := entry_of_className h
  exact marked_markReferred_iff.2 (.inr ⟨rfl, nameIndex, mark, hentry⟩)

end Pool

/-! ### Answers that do not change -/

namespace Namer

variable {namer : Namer} {start : PackageTable}

/-- The package is handed out for the same types whenever it is asked for, from a table on. -/
def Fixes (namer : Namer) (start : PackageTable) (package : Package) : Prop :=
  ∀ type later, namer.Reaches start later →
    ((namer.packageOf type later).1 = package ↔ (namer.packageOf type start).1 = package)

/-- The type can be referred to, and this is its package. -/
def Files (namer : Namer) (start : PackageTable) (type : TypeName) (package : Package) : Prop :=
  type.isPrimitive = false ∧ (namer.packageOf type start).1 = package ∧ package.primitive = false

/-- Where packages are computed all are fixed: the answer depends on the type alone, and the table
stays as it is. -/
theorem exact_fixes (start : PackageTable) (package : Package) : exact.Fixes start package :=
  fun _ _ _ => .rfl

/-- The package of a type is its own, unless that is filed under the name of the primitive package:
then it is the one that holds the entry, which may have come there by another type. -/
theorem shared_packageOf (type : TypeName) (table : PackageTable) :
    (shared.packageOf type table).1 = Package.ofType type ∨
      ((Package.ofType type).primitive = true ∨
        (Package.ofType type).binary = PackageTable.primitiveKey) ∧
      table.holder = some (shared.packageOf type table).1 := by
  change (PackageTable.handOut _ _).1 = _ ∨ _ ∧ table.holder = some (PackageTable.handOut _ _).1
  rw [PackageTable.handOut]
  by_cases hkey : (Package.ofType type).primitive = true ∨
      (Package.ofType type).binary = PackageTable.primitiveKey
  · rw [if_pos hkey]
    cases table.holder with
    | none => exact .inl rfl
    | some holder => exact .inr ⟨hkey, rfl⟩
  · rw [if_neg hkey]
    exact .inl rfl

/-- If the entry of the primitive package is held, no answer changes any more: all other entries are
filed under names of which each belongs to one package only. -/
theorem shared_packageOf_of_holder {later : PackageTable} {holder : Package}
    (hholder : start.holder = some holder) (hlater : shared.Reaches start later)
    (type : TypeName) : (shared.packageOf type later).1 = (shared.packageOf type start).1 := by
  change (PackageTable.handOut _ _).1 = (PackageTable.handOut _ _).1
  rw [PackageTable.handOut, PackageTable.handOut, hholder, holder_of_reaches hlater hholder]
  split <;> rfl

/-- Only packages that are filed under the name of the primitive package come to hold the entry: the
primitive package itself, or an ordinary one that has its name. -/
theorem filed_of_holder {later : PackageTable} {package : Package}
    (h : shared.Reaches start later) (hnone : start.holder = none)
    (hholder : later.holder = some package) :
    package.primitive = true ∨ package.binary = PackageTable.primitiveKey := by
  induction h with
  | refl =>
    rw [hnone] at hholder
    cases hholder
  | @ask later type _ ih =>
    change (PackageTable.handOut _ _).2.holder = _ at hholder
    rw [PackageTable.handOut] at hholder
    split at hholder
    · rename_i hkey
      cases hlater : later.holder with
      | none =>
        rw [hlater] at hholder
        cases hholder
        exact hkey
      | some holder =>
        rw [hlater] at hholder
        exact ih hholder
    · exact ih hholder

/-- The usual namer fixes all packages but two: the primitive one and the one of its name. These
share an entry, and which of them is handed out depends on which was asked for first. -/
theorem shared_fixes {package : Package} (hordinary : package.primitive = false)
    (hbinary : package.binary ≠ PackageTable.primitiveKey) (start : PackageTable) :
    shared.Fixes start package := by
  intro type later hlater
  cases hholder : start.holder with
  | some holder => rw [shared_packageOf_of_holder hholder hlater]
  | none =>
    have hfiled : ¬(package.primitive = true ∨ package.binary = PackageTable.primitiveKey) := by
      rw [hordinary]
      exact fun h => h.elim Bool.false_ne_true hbinary
    have hanswer (table : PackageTable) (htable : shared.Reaches start table) :
        (shared.packageOf type table).1 = package ↔ Package.ofType type = package := by
      rcases shared_packageOf type table with hown | ⟨hkey, hheld⟩
      · rw [hown]
      · refine ⟨fun h => ?_, fun h => ?_⟩
        · exact absurd (filed_of_holder htable hholder (h ▸ hheld)) hfiled
        · exact absurd (h ▸ hkey) hfiled
    rw [hanswer later hlater, hanswer start (.refl start)]

end Namer

/-! ### What a decoding gathers -/

/-- What a decoder has collected, with its pool, in which it marks the constants that it has met. -/
structure Decoder.Gathered where
  pool : Pool
  collected : Decoder.Collected

/-- What is done with what a class file names. -/
inductive Gather where
  | refer (type : TypeName) (access : Access)
  | expose (type : TypeName) (access : Access)
  /-- The class constant at an index is met. -/
  | constant (index : UInt16)

namespace Decoder

/-- What a decoder has gathered. -/
def gathered (s : Decoder) : Gathered := ⟨s.pool, s.collected⟩

/-- A decoder that has gathered something else. -/
def withGathered (s : Decoder) (found : Gathered) : Decoder :=
  { s.withCollected found.collected with pool := found.pool }

@[simp]
theorem pool_withGathered (s : Decoder) (found : Gathered) :
    (s.withGathered found).pool = found.pool := rfl

end Decoder

namespace Gather

/-- What is gathered afterwards. -/
def apply (namer : Namer) (op : Gather) (found : Decoder.Gathered) : Decoder.Gathered :=
  match op with
  | .refer type access => ⟨found.pool, found.collected.refer namer type access⟩
  | .expose type access => ⟨found.pool, found.collected.expose namer type access⟩
  | .constant index =>
    ⟨(found.pool.markReferred index).2, match (found.pool.markReferred index).1 with
      | some name => found.collected.refer namer (.ofText name) 0
      | none => found.collected⟩

/-- The step of a decoding. -/
def step (context : Context) : Gather → Decode Unit
  | .refer type access => Decode.refer context type access
  | .expose type access => Decode.expose context type access
  | .constant index => Decode.referClassConstant context index

/-- Nothing but what is gathered changes when something is gathered, and it succeeds: references and
packages have no faults. -/
theorem step_eq (namer : Namer) (op : Gather) (s : Decoder) :
    op.step ⟨namer, none⟩ s = .ok () (s.withGathered (op.apply namer s.gathered)) := by
  cases op with
  | refer type access =>
    rw [step, Decode.refer_eq]
    rfl
  | expose type access =>
    rw [step, Decode.expose_eq]
    rfl
  | constant index =>
    have hname (name : Option String) :
        Decode.referName ⟨namer, none⟩ name (s.marked index) = .ok ()
          ((s.marked index).withCollected (match name with
            | some name => s.collected.refer namer (.ofText name) 0
            | none => s.collected)) := by
      cases name with
      | none => rfl
      | some name => exact Decode.refer_eq namer (.ofText name) 0 (s.marked index)
    rw [step, Decode.referClassConstant_eq]
    exact EStateM.bind_eq rfl (hname (s.pool.markReferred index).1)

/-- The pool stays the same but for the marks, whatever is gathered. So all questions about its
entries have the answers that they had. -/
theorem like_apply (namer : Namer) (op : Gather) (found : Decoder.Gathered) :
    (op.apply namer found).pool.Like found.pool := by
  cases op with
  | refer | expose => exact .refl _
  | constant index => exact Pool.like_markReferred _ index

/-- The table of packages goes on from where it was: it is only asked for packages, perhaps for
none. -/
theorem reaches_apply (namer : Namer) (op : Gather) (found : Decoder.Gathered) :
    namer.Reaches found.collected.session.table (op.apply namer found).collected.session.table := by
  cases op with
  | refer type access => exact Decoder.Collected.reaches_refer type access _
  | expose type access => exact Decoder.Collected.reaches_expose type access _
  | constant index =>
    dsimp only [apply]
    split
    · exact Decoder.Collected.reaches_refer _ 0 _
    · exact .refl _

end Gather

/-! ### What was collected, seen from an earlier table -/

namespace Decoder.Collected

variable {namer : Namer} {start : PackageTable} {found : Collected}

/-- The package is exposed. -/
def Exposes (package : Package) (found : Collected) : Prop := ∃ api ∈ found.api, package ∈ api

/-- Something is exposed after one more package has been put in if it was so before, or is that
package. Where the class is not public there is no set, and nothing is exposed at all. -/
theorem exposes_insert {package new : Package} {api : Option PackageSet} :
    (∃ packages ∈ api.map (·.insert new), package ∈ packages) ↔
      (∃ packages ∈ api, package ∈ packages) ∨ api.isSome = true ∧ new = package := by
  cases api with
  | none => simp
  | some packages => simp [Std.ExtTreeSet.mem_insert, or_comm]

theorem isSome_api_refer (type : TypeName) (access : Access) (found : Collected) :
    (found.refer namer type access).api.isSome = found.api.isSome := by
  by_cases htakes : found.Takes namer type
  · rw [refer_of_takes htakes]
    dsimp only
    split
    · exact Option.isSome_map
    · rfl
  · rcases refer_of_not_takes htakes access with hsame | hasked
    · rw [hsame]
    · rw [hasked]

theorem isSome_api_expose (type : TypeName) (access : Access) (found : Collected) :
    (found.expose namer type access).api.isSome = found.api.isSome := by
  rw [expose]
  split
  · dsimp only
    split
    · rfl
    · exact Option.isSome_map
  · rfl

/-- In a fixed package a type is referred to exactly if the earlier table files it there. Here what
may have happened to the table in between drops out. -/
theorem takes_of_files (hreaches : namer.Reaches start found.session.table) {type : TypeName}
    {package : Package} (hfixes : namer.Fixes start package) :
    found.Takes namer type ∧ (namer.packageOf type.referent found.session.table).1 = package ↔
      namer.Files start type.referent package := by
  rw [Takes, Namer.Files, ← hfixes _ _ hreaches]
  constructor
  · rintro ⟨⟨hprimitive, hpackage⟩, rfl⟩
    exact ⟨hprimitive, rfl, hpackage⟩
  · rintro ⟨hprimitive, rfl, hpackage⟩
    exact ⟨⟨hprimitive, hpackage⟩, rfl⟩

/-- A type is referred to when it is mentioned, if it can be: no primitive type is, nor one whose
package is the primitive one. -/
theorem mem_references_refer {type other : TypeName} (access : Access) :
    other ∈ (found.refer namer type access).references ↔
      other ∈ found.references ∨ found.Takes namer type ∧ type.referent = other := by
  by_cases htakes : found.Takes namer type
  · rw [refer_of_takes htakes]
    dsimp only
    rw [Std.ExtTreeSet.mem_insert, Std.LawfulEqCmp.compare_eq_iff_eq, and_iff_right htakes, or_comm]
  · rw [or_iff_left fun h => htakes h.1]
    rcases refer_of_not_takes htakes access with hkept | hasked
    · rw [hkept]
    · rw [hasked]

/-- The package of a type is imported together with the type, as the table hands it out at that
time. -/
theorem mem_imports_refer {type : TypeName} {package : Package} (access : Access) :
    package ∈ (found.refer namer type access).imports ↔ package ∈ found.imports ∨
      found.Takes namer type ∧
        (namer.packageOf type.referent found.session.table).1 = package := by
  by_cases htakes : found.Takes namer type
  · rw [refer_of_takes htakes]
    dsimp only
    rw [Std.ExtTreeSet.mem_insert, Std.LawfulEqCmp.compare_eq_iff_eq, and_iff_right htakes, or_comm]
  · rw [or_iff_left fun h => htakes h.1]
    rcases refer_of_not_takes htakes access with hkept | hasked
    · rw [hkept]
    · rw [hasked]

/-- The package of a type is asked for when the type is referred to, unless it is primitive. This is
one of two ways in which the table changes. -/
theorem table_refer (type : TypeName) (access : Access) (found : Collected) :
    (found.refer namer type access).session.table =
      if type.referent.isPrimitive then found.session.table
      else (namer.packageOf type.referent found.session.table).2 := by
  rw [refer]
  split
  · rfl
  · dsimp only
    split <;> rfl

/-- It is asked for when the type is exposed, if something can be seen at all: the class must be
public, and so must what exposes the type. -/
theorem table_expose (type : TypeName) (access : Access) (found : Collected) :
    (found.expose namer type access).session.table =
      if found.api.isSome ∧ access.isVisible then (namer.packageOf type found.session.table).2
      else found.session.table := by
  rw [expose]
  split
  · dsimp only
    split <;> rfl
  · rfl

/-- What refers to a type exposes its package if it can be seen. For a fixed package that is said in
terms of the earlier table, so that the steps in between need not be looked at. -/
theorem exposes_refer (hreaches : namer.Reaches start found.session.table) {type : TypeName}
    {package : Package} (hfixes : namer.Fixes start package) (access : Access) :
    (found.refer namer type access).Exposes package ↔ found.Exposes package ∨
      found.api.isSome = true ∧ access.isVisible = true ∧
        namer.Files start type.referent package := by
  rw [← takes_of_files hreaches hfixes]
  by_cases htakes : found.Takes namer type
  · rw [refer_of_takes htakes, Exposes]
    dsimp only
    split
    · rename_i hvisible
      rw [exposes_insert]
      refine or_congr_right (and_congr_right fun _ => ?_)
      exact ⟨fun h => ⟨hvisible, htakes, h⟩, fun h => h.2.2⟩
    · rename_i hhidden
      exact ⟨.inl, fun h => h.resolve_right fun h => hhidden h.2.1⟩
  · rcases refer_of_not_takes htakes access with hkept | hasked
    · rw [hkept]
      exact ⟨.inl, fun h => h.resolve_right fun h => htakes h.2.2.1⟩
    · rw [hasked]
      exact ⟨.inl, fun h => h.resolve_right fun h => htakes h.2.2.1⟩

/-- The package of a type that is exposed is exposed if what exposes it can be seen. Other than a
type that is referred to, it is taken as it stands, without its element. -/
theorem exposes_expose (hreaches : namer.Reaches start found.session.table) {type : TypeName}
    {package : Package} (hfixes : namer.Fixes start package) (access : Access) :
    (found.expose namer type access).Exposes package ↔ found.Exposes package ∨
      found.api.isSome = true ∧ access.isVisible = true ∧
        (namer.packageOf type start).1 = package ∧ package.primitive = false := by
  rw [expose, ← hfixes _ _ hreaches]
  split
  · rename_i hexposed
    dsimp only
    split
    · rename_i hprimitive
      refine ⟨.inl, fun h => h.resolve_right ?_⟩
      rintro ⟨-, -, rfl, hordinary⟩
      exact Bool.false_ne_true (hordinary.symm.trans hprimitive)
    · rename_i hpackage
      rw [Exposes, exposes_insert]
      refine or_congr_right (and_congr_right fun _ => ⟨?_, fun h => h.2.1⟩)
      rintro rfl
      exact ⟨hexposed.2, rfl, eq_false_of_ne_true hpackage⟩
  · rename_i hhidden
    exact ⟨.inl, fun h => h.resolve_right fun h => hhidden ⟨h.1, h.2.1⟩⟩

/-- What cannot be seen exposes nothing, and does not even ask for a package. -/
theorem expose_of_hidden {access : Access} (hhidden : access.isVisible = false) (type : TypeName)
    (found : Collected) : found.expose namer type access = found :=
  if_neg fun h => Bool.false_ne_true (hhidden.symm.trans h.2)

/-! ### What was met -/

/-- The package of the type was asked for. -/
def Asked (namer : Namer) (type : TypeName) (found : Collected) : Prop :=
  ∃ earlier, namer.Reaches (namer.packageOf type earlier).2 found.session.table

/-- The type was referred to, unless it cannot be: it is primitive, or its package is. -/
def Met (namer : Namer) (type : TypeName) (found : Collected) : Prop :=
  type.isPrimitive = true ∨ found.Asked namer type ∧
    (type ∈ found.references ∨ (namer.packageOf type found.session.table).1.primitive = true)

variable {other : Collected} {type : TypeName}

/-- Who was once asked was asked when more has been done. -/
theorem Asked.later (h : found.Asked namer type)
    (hreaches : namer.Reaches found.session.table other.session.table) :
    other.Asked namer type := by
  obtain ⟨earlier, hearlier⟩ := h
  exact ⟨earlier, hearlier.trans hreaches⟩

/-- Who was once asked gives the same answer: a steady namer does not change its mind about a
type. -/
theorem Asked.packageOf_eq (hsteady : namer.Steady) (h : found.Asked namer type)
    (hreaches : namer.Reaches found.session.table other.session.table) :
    (namer.packageOf type other.session.table).1 =
      (namer.packageOf type found.session.table).1 := by
  obtain ⟨earlier, hearlier⟩ := h
  have hsettled := hsteady type earlier
  rw [hsettled _ hearlier, hsettled _ (hearlier.trans hreaches)]

/-- A type that was met stays met, if the references stay and the table only goes on. -/
theorem Met.later (hsteady : namer.Steady) (h : found.Met namer type)
    (hreaches : namer.Reaches found.session.table other.session.table)
    (hreferences : type ∈ found.references → type ∈ other.references) : other.Met namer type := by
  refine h.imp_right fun ⟨hasked, hmet⟩ => ⟨hasked.later hreaches, ?_⟩
  rw [hasked.packageOf_eq hsteady hreaches]
  exact hmet.imp_left hreferences

/-- What is mentioned is met: either it is referred to, or it cannot be, and then its package was
asked for. -/
theorem met_refer (hsteady : namer.Steady) (type : TypeName) (access : Access)
    (found : Collected) : (found.refer namer type access).Met namer type.referent := by
  by_cases hprimitive : type.referent.isPrimitive = true
  · exact .inl hprimitive
  have htable := @table_refer namer type access found
  rw [if_neg hprimitive] at htable
  refine .inr ⟨⟨found.session.table, htable ▸ .refl _⟩, ?_⟩
  rw [mem_references_refer, htable, hsteady _ _ _ (.refl _)]
  cases hpackage : (namer.packageOf type.referent found.session.table).1.primitive with
  | true => exact .inr rfl
  | false => exact .inl (.inr ⟨⟨eq_false_of_ne_true hprimitive, hpackage⟩, rfl⟩)

end Decoder.Collected

namespace Gather

variable {namer : Namer} {start : PackageTable} {found : Decoder.Gathered} {op : Gather}

/-- The package is shown to other packages. -/
def Shows (namer : Namer) (start : PackageTable) (package : Package) : Gather → Prop
  | .refer type access => access.isVisible = true ∧ namer.Files start type.referent package
  | .expose type access => access.isVisible = true ∧
      (namer.packageOf type start).1 = package ∧ package.primitive = false
  | .constant _ => False

/-- What is shown is exposed if the class is public, and nothing else is. **Seen from an earlier
table** it does not matter what was gathered before, which is why two decodings can be compared that
gather in different orders. -/
theorem exposes_apply (hreaches : namer.Reaches start found.collected.session.table)
    {package : Package} (hfixes : namer.Fixes start package) :
    (op.apply namer found).collected.Exposes package ↔ found.collected.Exposes package ∨
      found.collected.api.isSome = true ∧ op.Shows namer start package := by
  cases op with
  | refer type access => exact Decoder.Collected.exposes_refer hreaches hfixes access
  | expose type access => exact Decoder.Collected.exposes_expose hreaches hfixes access
  | constant index =>
    dsimp only [apply, Shows]
    cases (found.pool.markReferred index).1 with
    | none => simp
    | some name =>
      refine (Decoder.Collected.exposes_refer hreaches hfixes 0).trans (or_congr_right ?_)
      exact and_congr_right fun _ => iff_false_intro fun h => absurd h.1 (by decide)

/-- A class does not become public, nor stop being so, by what is gathered. -/
theorem isSome_api_apply (namer : Namer) (op : Gather) (found : Decoder.Gathered) :
    (op.apply namer found).collected.api.isSome = found.collected.api.isSome := by
  cases op with
  | refer type access => exact Decoder.Collected.isSome_api_refer type access _
  | expose type access => exact Decoder.Collected.isSome_api_expose type access _
  | constant index =>
    dsimp only [apply]
    split
    · exact Decoder.Collected.isSome_api_refer _ 0 _
    · rfl

/-- No mark is taken away by what is gathered: a class that was met stays met. -/
theorem marked_apply {index : UInt16} (h : found.pool.Marked index) :
    (op.apply namer found).pool.Marked index := by
  cases op with
  | refer | expose => exact h
  | constant => exact Pool.marked_markReferred_iff.2 (.inl h)

theorem mem_references_apply {type : TypeName} (h : type ∈ found.collected.references) :
    type ∈ (op.apply namer found).collected.references := by
  cases op with
  | refer other access => exact (Decoder.Collected.mem_references_refer access).2 (.inl h)
  | expose other access => exact (Decoder.Collected.references_expose other access _).symm ▸ h
  | constant index =>
    dsimp only [apply]
    split
    · exact (Decoder.Collected.mem_references_refer 0).2 (.inl h)
    · exact h

end Gather

/-! ### A decoding that gathers -/

namespace Decoder.Gathered

variable {namer : Namer} {start found : Gathered}

/-- What a decoding has gathered since it had gathered that. On the way it may be said anew what is
exposed. -/
inductive Comes (namer : Namer) (start : Gathered) : Gathered → Prop where
  | refl : Comes namer start start
  | apply {found : Gathered} (op : Gather) : Comes namer start found →
    Comes namer start (op.apply namer found)
  | withApi {found : Gathered} (api : Option PackageSet) : Comes namer start found →
    Comes namer start ⟨found.pool, { found.collected with api }⟩

namespace Comes

/-- However much is gathered, the pool stays the same but for the marks. -/
theorem like (h : Comes namer start found) : found.pool.Like start.pool := by
  induction h with
  | refl => exact .refl _
  | apply op _ ih => exact (op.like_apply namer _).trans ih
  | withApi _ _ ih => exact ih

/-- And the table has only gone on from where it was. -/
theorem reached (h : Comes namer start found) :
    namer.Reaches start.collected.session.table found.collected.session.table := by
  induction h with
  | refl => exact .refl _
  | apply op _ ih => exact ih.trans (op.reaches_apply namer _)
  | withApi _ _ ih => exact ih

/-- **What comes of the reference to a class, and stays, is so when its constant is marked.** For a
mark is set in one place only, where the class is referred to, and everything afterwards is gathered
on top of that. It is proved by induction over what was gathered. -/
theorem of_marked {I : Collected → Prop} (h : Comes namer start found)
    (hstart : ∀ index, ¬start.pool.Marked index) {index : UInt16} {name : String}
    (hname : start.pool.className index = .ok name) (hmarked : found.pool.Marked index)
    (hrefer : ∀ {found}, Comes namer start found →
      I (found.collected.refer namer (.ofText name) 0))
    (happly : ∀ {found} (op : Gather), Comes namer start found → I found.collected →
      I (op.apply namer found).collected)
    (hapi : ∀ {found : Collected} (api : Option PackageSet), I found → I { found with api }) :
    I found.collected := by
  induction h with
  | refl => exact absurd hmarked (hstart index)
  | withApi api _ ih => exact hapi api (ih hmarked)
  | @apply found op h ih =>
    by_cases hbefore : found.pool.Marked index
    · exact happly op h (ih hbefore)
    · cases op with
      | refer | expose => exact absurd hmarked hbefore
      | constant other =>
        obtain ⟨rfl, -⟩ := (Pool.marked_markReferred_iff.1 hmarked).resolve_left hbefore
        have hfirst := Pool.markReferred_eq_some_iff.2
          ⟨hbefore, (Pool.Question.className other).ok_of_like h.like.symm hname⟩
        dsimp only [Gather.apply]
        rw [hfirst]
        exact hrefer h

/-- A class is met when it is marked, if no class was marked to begin with. -/
theorem met (hsteady : namer.Steady) (h : Comes namer start found)
    (hstart : ∀ index, ¬start.pool.Marked index) {index : UInt16} {name : String}
    (hname : start.pool.className index = .ok name) (hmarked : found.pool.Marked index) :
    found.collected.Met namer (TypeName.ofText name).referent :=
  h.of_marked hstart hname hmarked (fun _ => Collected.met_refer hsteady _ 0 _)
    (fun op _ hmet => hmet.later hsteady (op.reaches_apply namer _) Gather.mem_references_apply)
    fun _ hmet => hmet

end Comes

end Decoder.Gathered

/-! ### Two decodings that gather -/

namespace Decoder.Gathered

/-- The relation stays if both decodings do the same, and their pools are like a third. -/
structure Tandem (namer : Namer) (pool : Pool) (G : Gathered → Gathered → Prop) : Prop where
  left {found other : Gathered} : G found other → found.pool.Like pool
  right {found other : Gathered} : G found other → other.pool.Like pool
  both {found other : Gathered} (op : Gather) : G found other →
    G (op.apply namer found) (op.apply namer other)

/-- The relation stays if the first decoding meets constants alone, and if it refers to some other
types as well. Nothing that it does alone can be seen. -/
structure Ahead (namer : Namer) (extra : TypeName → Prop) (pool : Pool)
    (G : Gathered → Gathered → Prop) : Prop extends Tandem namer pool G where
  refer {found other : Gathered} {type : TypeName} {access : Access} : extra type.referent →
    access.isVisible = false → G found other →
    G ((Gather.refer type access).apply namer found) other
  constant {found other : Gathered} (index : UInt16) : G found other →
    G ((Gather.constant index).apply namer found) other

/-- Two decodings that gather the same stay equal. This is the least relation of those that can be
used for decodings in step, and it remembers where they came from. -/
theorem Comes.tandem (namer : Namer) (start : Gathered) :
    Tandem namer start.pool fun found other => found = other ∧ Comes namer start found where
  left h := h.2.like
  right h := h.1 ▸ h.2.like
  both op h := ⟨congrArg (op.apply namer) h.1, h.2.apply op⟩

end Decoder.Gathered

end ClassFile
