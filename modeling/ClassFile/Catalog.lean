import ClassFile.Query.Ancestry
import Std.Data.ExtTreeMap

/-!
# Catalogs

A catalog holds records by the names of their classes; that every record stands under its
own name is part of the type. The first record of a name is kept, as on a class path, but
every source that a class was found in is remembered.

Putting a query to the classes of a catalog may meet ancestors that are not in it. What
there is to say about them is held back, each diagnostic once, until it is taken.
-/

namespace ClassFile

/-- A class in a catalog: its record, and the sources that it was found in. -/
structure Holding where
  record : Record
  sources : List String

/-- Records by name. -/
structure Catalog where
  holdings : Std.ExtTreeMap TypeName Holding := ∅
  /-- The diagnostics that nobody has taken yet. -/
  pending : List Diagnostic := []
  /-- Every record stands under its own name. -/
  name_of_getElem? : ∀ {name : TypeName} {holding : Holding}, holdings[name]? = some holding →
    holding.record.name = name := by simp

namespace Catalog

/-- A catalog without classes. -/
def empty : Catalog := {}

/-- Adds a source at the end, unless it is known. -/
def addSource (source : String) (sources : List String) : List String :=
  if source ∈ sources then sources else sources ++ [source]

/-- Puts what is known of a class in the place of its name. -/
def put (catalog : Catalog) (holding : Holding) : Catalog where
  holdings := catalog.holdings.insert holding.record.name holding
  pending := catalog.pending
  name_of_getElem? {name other} h := by
    rw [Std.ExtTreeMap.getElem?_insert] at h
    split at h
    · rename_i hname
      obtain rfl := Option.some.inj h
      exact Std.LawfulEqOrd.eq_of_compare hname
    · exact catalog.name_of_getElem? h

/-- Adds the record of a class that was found in a source. Whether the class is new is
told as well. -/
def insert (catalog : Catalog) (source : String) (record : Record) : Bool × Catalog :=
  match catalog.holdings[record.name]? with
  | none => (true, catalog.put ⟨record, [source]⟩)
  | some holding =>
    (false, catalog.put { holding with sources := addSource source holding.sources })

/-- The record of a class. -/
def get? (catalog : Catalog) (name : TypeName) : Option Record :=
  catalog.holdings[name]?.map Holding.record

/-- The sources of a class, in the order in which they came. -/
def sources (catalog : Catalog) (name : TypeName) : List String :=
  (catalog.holdings[name]?.map Holding.sources).getD []

theorem getElem?_put (catalog : Catalog) (holding : Holding) (name : TypeName) :
    (catalog.put holding).holdings[name]? =
      if holding.record.name = name then some holding else catalog.holdings[name]? := by
  rw [put, Std.ExtTreeMap.getElem?_insert]
  simp only [Std.compare_eq_iff_eq]

/-- Only what is known of the class changes when a class is put into the catalog; other names lead
where they led. -/
theorem getElem?_insert (catalog : Catalog) (source : String) (record : Record) (name : TypeName) :
    (catalog.insert source record).2.holdings[name]? =
      if record.name = name then
        some (match catalog.holdings[name]? with
          | none => ⟨record, [source]⟩
          | some holding => { holding with sources := addSource source holding.sources })
      else catalog.holdings[name]? := by
  rw [insert]
  cases hknown : catalog.holdings[record.name]? with
  | none =>
    dsimp only
    rw [getElem?_put]
    split
    · rename_i hname
      rw [← hname, hknown]
    · rfl
  | some holding =>
    dsimp only
    rw [getElem?_put, catalog.name_of_getElem? hknown]
    split
    · rename_i hname
      rw [← hname, hknown]
    · rfl

/-- A record that stands under its name is not displaced. -/
theorem get?_insert (catalog : Catalog) (source : String) (record : Record) (name : TypeName) :
    (catalog.insert source record).2.get? name =
      (catalog.get? name).or (if record.name = name then some record else none) := by
  rw [get?, get?, getElem?_insert]
  split
  · cases catalog.holdings[name]? <;> rfl
  · rw [Option.or_none]

theorem sources_insert (catalog : Catalog) (source : String) (record : Record) (name : TypeName) :
    (catalog.insert source record).2.sources name =
      if record.name = name then addSource source (catalog.sources name)
      else catalog.sources name := by
  rw [sources, sources, getElem?_insert]
  split
  · cases catalog.holdings[name]? <;> rfl
  · rfl

/-- The number of classes. -/
def size (catalog : Catalog) : Nat := catalog.holdings.size

/-- The records in the order of the names. -/
def records (catalog : Catalog) : List Record :=
  catalog.holdings.toList.map fun entry => entry.2.record

/-- The names of the classes, in order. -/
def names (catalog : Catalog) : List TypeName := catalog.holdings.keys

/-- Puts a query to a class, whose ancestors are looked for in the catalog. -/
def judge (catalog : Catalog) (query : Query) (record : Record) : Verdict :=
  query.judge catalog.get? catalog.size record

/-- Holds a diagnostic back, unless it is held already. -/
def report (catalog : Catalog) (diagnostic : Diagnostic) : Catalog :=
  if diagnostic ∈ catalog.pending then catalog
  else { catalog with pending := catalog.pending ++ [diagnostic] }

/-- Whether a class has the property that a query asks for; what there is to say is held
back in the catalog. -/
def satisfies (catalog : Catalog) (query : Query) (record : Record) : Bool × Catalog :=
  let verdict := catalog.judge query record
  (verdict.holds, verdict.diagnostic?.elim catalog catalog.report)

/-- The classes that have the property that a query asks for, in the order of the names. -/
def select (catalog : Catalog) (query : Query) : List Record × Catalog :=
  let verdicts := catalog.records.map fun record => (record, catalog.judge query record)
  ((verdicts.filter fun (_, verdict) => verdict.holds).map Prod.fst,
    (verdicts.filterMap fun (_, verdict) => verdict.diagnostic?).foldl report catalog)

/-- Takes the diagnostics that were held back. -/
def takeDiagnostics (catalog : Catalog) : List Diagnostic × Catalog :=
  (catalog.pending, { catalog with pending := [] })

/-- How the names of two records compare. -/
def compareNames (a b : Record) : Ordering := compare a.name b.name

end Catalog

end ClassFile
