import ClassFile.Catalog
import ClassFile.Proofs.Lists

/-!
# What a catalog holds

A catalog is made by putting in one class after the other. Of a name it holds what the calls for
that name say and nothing else: the record of the first of them, and the sources of all of them,
each at its first place (`ClassFile.Catalog.get?_insertAll`, `ClassFile.Catalog.sources_insertAll`).
The record and the sources are all that a catalog knows of a name, and so calls for different names
may change places.

The records come in the order of their names, with no name twice; which they are, `get?` says
(`ClassFile.Catalog.mem_records`). A query is put to them in this order, and what there is to say is
held back at its first place, unless it was held already.
-/

namespace ClassFile

/-- Names are in order if their texts are. -/
theorem TypeName.compare_eq_lt {a b : TypeName} : compare a b = .lt ↔ a.binary < b.binary :=
  compareOfLessAndEq_eq_lt

namespace Catalog

/-- Adds one record after the other, each with its source. -/
def insertAll (catalog : Catalog) (calls : List (String × Record)) : Catalog :=
  calls.foldl (fun catalog call => (catalog.insert call.1 call.2).2) catalog

/-- The catalog that calls make of an empty one. -/
def ofCalls (calls : List (String × Record)) : Catalog := empty.insertAll calls

/-! ### What the calls leave behind -/

/-- A record is new if there was none of its name. That is the answer which the catalog gives, and
the first record of a name stays. -/
theorem insert_fst (catalog : Catalog) (source : String) (record : Record) :
    (catalog.insert source record).1 = (catalog.get? record.name).isNone := by
  rw [insert, get?]
  cases catalog.holdings[record.name]? <;> rfl

theorem pending_insert (catalog : Catalog) (source : String) (record : Record) :
    (catalog.insert source record).2.pending = catalog.pending := by
  rw [insert]
  cases catalog.holdings[record.name]? <;> rfl

/-- To insert classes gives rise to no diagnostics, and those that wait go on waiting. -/
theorem pending_insertAll (catalog : Catalog) (calls : List (String × Record)) :
    (catalog.insertAll calls).pending = catalog.pending := by
  induction calls generalizing catalog with
  | nil => rfl
  | cons call calls ih => exact (ih _).trans (pending_insert catalog call.1 call.2)

/-- The first record of a name is kept, and one that was there before any of the calls. -/
theorem get?_insertAll (catalog : Catalog) (calls : List (String × Record)) (name : TypeName) :
    (catalog.insertAll calls).get? name =
      (catalog.get? name).or ((calls.find? fun call => call.2.name = name).map Prod.snd) := by
  induction calls generalizing catalog with
  | nil => exact (Option.or_none).symm
  | cons call calls ih =>
    have hcall : (catalog.insertAll (call :: calls)).get? name =
        ((catalog.insert call.1 call.2).2.insertAll calls).get? name := rfl
    rw [hcall, ih, get?_insert, Option.or_assoc]
    by_cases hname : call.2.name = name
    · rw [if_pos hname, List.find?_cons_of_pos (by simpa using hname)]
      rfl
    · rw [if_neg hname, List.find?_cons_of_neg (by simpa using hname), Option.none_or]

/-- The sources of a name are added in the order of the calls. -/
theorem sources_insertAll (catalog : Catalog) (calls : List (String × Record)) (name : TypeName) :
    (catalog.insertAll calls).sources name =
      ((calls.filter fun call => call.2.name = name).map Prod.fst).foldl
        (fun sources source => addSource source sources) (catalog.sources name) := by
  induction calls generalizing catalog with
  | nil => rfl
  | cons call calls ih =>
    have hcall : (catalog.insertAll (call :: calls)).sources name =
        ((catalog.insert call.1 call.2).2.insertAll calls).sources name := rfl
    rw [hcall, ih, sources_insert]
    by_cases hname : call.2.name = name
    · rw [if_pos hname, List.filter_cons_of_pos (by simpa using hname)]
      rfl
    · rw [if_neg hname, List.filter_cons_of_neg (by simpa using hname)]

/-- The class that a catalog has for a name is the first one that it was called with. -/
theorem get?_ofCalls (calls : List (String × Record)) (name : TypeName) :
    (ofCalls calls).get? name = (calls.find? fun call => call.2.name = name).map Prod.snd :=
  get?_insertAll empty calls name

/-- And its sources are those of all calls with that name, each at its first place. -/
theorem sources_ofCalls (calls : List (String × Record)) (name : TypeName) :
    (ofCalls calls).sources name =
      ((calls.filter fun call => call.2.name = name).map Prod.fst).eraseDups := by
  refine (sources_insertAll empty calls name).trans ((List.foldl_putNew _ []).trans ?_)
  rw [List.nil_append, List.filter_eq_self.2 fun source _ => by simp]

/-- A call is for a new class if no call before it was for the same. -/
theorem insert_ofCalls_fst (calls : List (String × Record)) (source : String) (record : Record) :
    ((ofCalls calls).insert source record).1 = true ↔
      ∀ call ∈ calls, call.2.name ≠ record.name := by
  rw [insert_fst, get?_ofCalls, Option.isNone_map, Option.isNone_iff_eq_none, List.find?_eq_none]
  simp

/-- A catalog knows of a name no more than its record and its sources. -/
theorem holding_eq (catalog : Catalog) (name : TypeName) :
    catalog.holdings[name]? =
      (catalog.get? name).map fun record => ⟨record, catalog.sources name⟩ := by
  rw [get?, sources]
  cases catalog.holdings[name]? <;> rfl

/-- A catalog is known by what it answers for each name, and by the diagnostics that wait. -/
theorem eq_of_get? {catalog catalog' : Catalog}
    (hget : ∀ name, catalog.get? name = catalog'.get? name)
    (hsources : ∀ name, catalog.sources name = catalog'.sources name)
    (hpending : catalog.pending = catalog'.pending) : catalog = catalog' := by
  have hholdings : catalog.holdings = catalog'.holdings := by
    refine Std.ExtTreeMap.ext_getElem? fun name => ?_
    rw [holding_eq, holding_eq, hget, hsources]
  cases catalog
  cases catalog'
  cases hholdings
  cases hpending
  rfl

/-- What came of the calls for each name is all that matters. -/
theorem ofCalls_congr {calls calls' : List (String × Record)}
    (hsame : ∀ name : TypeName, (calls'.filter fun call => call.2.name = name) =
      calls.filter fun call => call.2.name = name) : ofCalls calls' = ofCalls calls := by
  refine eq_of_get? (fun name => ?_) (fun name => ?_) ?_
  · rw [get?_ofCalls, get?_ofCalls, ← List.head?_filter, ← List.head?_filter, hsame]
  · rw [sources_ofCalls, sources_ofCalls, hsame]
  · exact (pending_insertAll empty calls').trans (pending_insertAll empty calls).symm

/-! ### The records in order -/

/-- The records are those that are found under their names. -/
theorem mem_records {catalog : Catalog} {record : Record} :
    record ∈ catalog.records ↔ catalog.get? record.name = some record := by
  rw [records, get?, List.mem_map]
  constructor
  · rintro ⟨⟨name, holding⟩, hmem, rfl⟩
    have hfound := Std.ExtTreeMap.mem_toList_iff_getElem?_eq_some.1 hmem
    rw [catalog.name_of_getElem? hfound, hfound]
    rfl
  · intro hget
    obtain ⟨holding, hfound, rfl⟩ := Option.map_eq_some_iff.1 hget
    exact ⟨(holding.record.name, holding), Std.ExtTreeMap.mem_toList_iff_getElem?_eq_some.2 hfound,
      rfl⟩

/-- What is found under a name has that name. -/
theorem name_of_get? {catalog : Catalog} {name : TypeName} {record : Record}
    (h : catalog.get? name = some record) : record.name = name := by
  obtain ⟨holding, hfound, rfl⟩ := Option.map_eq_some_iff.1 h
  exact catalog.name_of_getElem? hfound

/-- The names in a catalog are those under which something is found. -/
theorem mem_map_name_records {catalog : Catalog} {name : TypeName} :
    name ∈ catalog.records.map Record.name ↔ (catalog.get? name).isSome = true := by
  rw [List.mem_map, Option.isSome_iff_exists]
  constructor
  · rintro ⟨record, hmem, rfl⟩
    exact ⟨record, mem_records.1 hmem⟩
  · rintro ⟨record, hget⟩
    obtain rfl := name_of_get? hget
    exact ⟨record, mem_records.2 hget, rfl⟩

/-- The records ascend strictly by name, so that no name is there twice. -/
theorem records_ascend (catalog : Catalog) :
    catalog.records.Pairwise fun a b => a.name.binary < b.name.binary := by
  have hname : ∀ entry ∈ catalog.holdings.toList, entry.2.record.name = entry.1 := fun entry hmem =>
    catalog.name_of_getElem? (Std.ExtTreeMap.mem_toList_iff_getElem?_eq_some.1 hmem)
  refine List.pairwise_map.2 (Std.ExtTreeMap.ordered_keys_toList.imp_of_mem ?_)
  intro a b ha hb hlt
  rw [hname a ha, hname b hb]
  exact TypeName.compare_eq_lt.1 hlt

/-- A catalog has as many records as it has names. -/
theorem length_records (catalog : Catalog) : catalog.records.length = catalog.size :=
  (List.length_map _).trans Std.ExtTreeMap.length_toList

/-! ### Queries to all records -/

/-- A query selects the records that satisfy it, in the order of the catalog. -/
theorem select_fst (catalog : Catalog) (query : Query) :
    (catalog.select query).1 =
      catalog.records.filter fun record => (catalog.satisfies query record).1 := by
  rw [select, List.filter_map, List.map_map]
  exact List.map_id _

/-- What is held back does not change what is held: to report a diagnostic leaves every class where
it is. -/
theorem holdings_report (catalog : Catalog) (diagnostic : Diagnostic) :
    (catalog.report diagnostic).holdings = catalog.holdings := by
  rw [report]
  split <;> rfl

/-- A diagnostic is held back if it waits already, so that each is reported once however many
classes cause it. -/
theorem pending_report (catalog : Catalog) (diagnostic : Diagnostic) :
    (catalog.report diagnostic).pending =
      if diagnostic ∈ catalog.pending then catalog.pending
      else catalog.pending ++ [diagnostic] := by
  rw [report]
  split <;> rfl

/-- Diagnostics change nothing of the classes, in whatever number and order they are reported. -/
theorem holdings_foldl_report (catalog : Catalog) (diagnostics : List Diagnostic) :
    (diagnostics.foldl report catalog).holdings = catalog.holdings := by
  induction diagnostics generalizing catalog with
  | nil => rfl
  | cons diagnostic diagnostics ih => exact (ih _).trans (holdings_report catalog diagnostic)

/-- Diagnostics that are not held yet come last, in the order in which they came first. -/
theorem pending_foldl_report (catalog : Catalog) (diagnostics : List Diagnostic) :
    (diagnostics.foldl report catalog).pending =
      catalog.pending ++ (diagnostics.filter (· ∉ catalog.pending)).eraseDups := by
  rw [← List.foldl_putNew]
  induction diagnostics generalizing catalog with
  | nil => rfl
  | cons diagnostic diagnostics ih =>
    rw [List.foldl_cons, List.foldl_cons, ih, pending_report]

/-- Who is asked depends on what is held alone, and neither on the sources nor on the diagnostics
that wait. -/
theorem judge_congr {catalog catalog' : Catalog} (h : catalog.holdings = catalog'.holdings)
    (query : Query) (record : Record) :
    catalog.judge query record = catalog'.judge query record := by
  rw [judge, judge, show catalog.get? = catalog'.get? from funext fun name => by rw [get?, get?, h],
    size, size, h]

/-- The query is put to one record after the other, and those that satisfy it are selected, in the
order of their names. -/
theorem select_snd (catalog : Catalog) (query : Query) :
    (catalog.select query).2 =
      catalog.records.foldl (fun catalog record => (catalog.satisfies query record).2) catalog := by
  rw [select]
  dsimp only
  rw [List.filterMap_map]
  generalize catalog.records = records
  -- what has been reported on the way does not change what is said of the next record
  suffices hall : ∀ current : Catalog, current.holdings = catalog.holdings →
      (records.filterMap fun record => (catalog.judge query record).diagnostic?).foldl
        report current =
        records.foldl (fun catalog record => (catalog.satisfies query record).2) current from
    hall catalog rfl
  induction records with
  | nil => exact fun _ _ => rfl
  | cons record records ih =>
    intro current hcurrent
    rw [List.foldl_cons, satisfies, judge_congr hcurrent, List.filterMap_cons]
    cases (catalog.judge query record).diagnostic? with
    | none => exact ih current hcurrent
    | some diagnostic => exact ih _ ((holdings_report current diagnostic).trans hcurrent)

/-- And so a query leaves the classes as they are. -/
theorem holdings_select (catalog : Catalog) (query : Query) :
    (catalog.select query).2.holdings = catalog.holdings :=
  holdings_foldl_report _ _

/-- The diagnostics of a query come behind those that wait, without those that are among them
already. -/
theorem pending_select (catalog : Catalog) (query : Query) :
    (catalog.select query).2.pending =
      catalog.pending ++ ((catalog.records.filterMap fun record =>
        (catalog.judge query record).diagnostic?).filter (· ∉ catalog.pending)).eraseDups := by
  rw [select, List.filterMap_map]
  exact pending_foldl_report _ _

/-! ### What a catalog is -/

/-- **A catalog is what its calls make of it.** A call tells whether its class is new. Of each name
there is the first record, and all sources that came with the name; the records ascend by their
names. A selection is what the query selects of the records, in their order. It leaves behind what
the query leaves behind that is put to one record after the other, which is what was held back
before, and after it what is new. Calls for different names may change places. -/
theorem ofCalls_faithful (calls : List (String × Record)) :
    let catalog := ofCalls calls
    (∀ source record, (catalog.insert source record).1 = true ↔
      ∀ call ∈ calls, call.2.name ≠ record.name) ∧
    (∀ name, catalog.get? name = (calls.find? fun call => call.2.name = name).map Prod.snd) ∧
    (∀ name, catalog.sources name =
      ((calls.filter fun call => call.2.name = name).map Prod.fst).eraseDups) ∧
    (catalog.records.Pairwise fun a b => a.name.binary < b.name.binary) ∧
    (∀ record, record ∈ catalog.records ↔ catalog.get? record.name = some record) ∧
    (∀ name, name ∈ catalog.records.map Record.name ↔ name ∈ calls.map fun call => call.2.name) ∧
    (∀ (any : Catalog) (query : Query),
      let reported := any.records.filterMap fun record => (any.judge query record).diagnostic?
      (any.select query).1 = any.records.filter (fun record => (any.satisfies query record).1) ∧
      (any.select query).2 =
        any.records.foldl (fun current record => (current.satisfies query record).2) any ∧
      (any.select query).2.holdings = any.holdings ∧
      (any.select query).2.pending =
        any.pending ++ (reported.filter (· ∉ any.pending)).eraseDups) ∧
    ∀ calls' : List (String × Record),
      (∀ name : TypeName, (calls'.filter fun call => call.2.name = name) =
        calls.filter fun call => call.2.name = name) →
      ofCalls calls' = catalog ∧
        ∀ query, (ofCalls calls').select query = catalog.select query := by
  intro catalog
  refine ⟨insert_ofCalls_fst calls, get?_ofCalls calls, sources_ofCalls calls,
    catalog.records_ascend, fun record => mem_records, fun name => ?_,
    fun any query => ⟨any.select_fst query, any.select_snd query, any.holdings_select query,
      any.pending_select query⟩, fun calls' hsame => ?_⟩
  · rw [mem_map_name_records, get?_ofCalls, Option.isSome_map, List.find?_isSome, List.mem_map]
    simp
  · have heq : ofCalls calls' = catalog := ofCalls_congr hsame
    exact ⟨heq, fun query => by rw [heq]⟩

/-- A class that two archives have, and one that a third archive has. -/
def overlapping : List (String × Record) :=
  [("a.jar", .header ⟨"A"⟩ 52 0 1), ("b.jar", .header ⟨"B"⟩ 52 0 1),
    ("c.jar", .header ⟨"A"⟩ 65 0 1)]

/-- The archives are read in another order, but of those that have the same class the first one
comes first again. -/
theorem ofCalls_faithful_of_overlapping :
    let calls := [overlapping[1], overlapping[0], overlapping[2]]
    (∀ name : TypeName, (calls.filter fun call => call.2.name = name) =
        overlapping.filter fun call => call.2.name = name) ∧
      ofCalls calls = ofCalls overlapping ∧
      ((ofCalls calls).get? ⟨"A"⟩).map Record.major = some 52 ∧
      (ofCalls calls).sources ⟨"A"⟩ = ["a.jar", "c.jar"] := by
  intro calls
  have hsame : ∀ name : TypeName, (calls.filter fun call => call.2.name = name) =
      overlapping.filter fun call => call.2.name = name := by
    intro name
    by_cases hA : TypeName.mk "A" = name
    · subst hA
      rfl
    · simp [calls, overlapping, List.filter_cons, Record.header, hA]
  obtain ⟨-, hget, hsources, -, -, -, -, hreordered⟩ := ofCalls_faithful overlapping
  obtain ⟨heq, -⟩ := hreordered calls hsame
  rw [heq, hget, hsources]
  exact ⟨hsame, rfl, by decide, by decide⟩

end Catalog

end ClassFile
