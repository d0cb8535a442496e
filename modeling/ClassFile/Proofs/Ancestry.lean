import Mathlib.Data.List.Sort
import ClassFile.Proofs.Catalogs
import ClassFile.Query.Chain

/-!
# Ascents in a catalog

In a catalog every record stands under its own name, and so the names along a chain of superclasses
are names of the catalog, all of them different but for the first, which may be any. Hence a chain
is no longer than the catalog has classes, and one (`ClassFile.Chain.exists_of_names`), and an
ascent, which goes along the chain, is over before its bound is reached
(`ClassFile.Catalog.asks_judge`).

What comes of the ascent is the first answer along the chain (`ClassFile.Query.along`). For a query
that asks ancestors and is not negated this is "yes" where the pattern selects a name that some
class of the chain has, and otherwise how the chain ends.

Another class in the catalog may lengthen a chain or close it to a loop, but only beyond its end:
what an ascent came to before it answered stands where it stood. So what a query selects stays
selected.
-/

namespace ClassFile

variable {find find' : TypeName → Option Record}

/-! ### Chains end -/

/-- Where finitely many names have records, each under its own name, there is a chain above every
record. It has no more classes above the first than there are names that are not met. -/
theorem Chain.exists_of_names {names : List TypeName}
    (hfind : ∀ {name : TypeName} {record : Record}, find name = some record →
      record.name = name ∧ name ∈ names) (below : List TypeName) (record : Record) :
    ∃ chain ending, Chain find below record chain ending ∧
      chain.length ≤ (names.filter (· ∉ record.name :: below)).length + 1 := by
  induction hleft : (names.filter (· ∉ record.name :: below)).length using Nat.strong_induction_on
    generalizing below record with
  | _ left ih =>
    cases hsuper : record.superclass with
    | none => exact ⟨[record], .root, .root hsuper, Nat.le_add_left 1 left⟩
    | some superclass =>
      by_cases hmet : superclass ∈ record.name :: below
      · exact ⟨[record], _, .repeated hsuper hmet, Nat.le_add_left 1 left⟩
      cases hnext : find superclass with
      | none => exact ⟨[record], _, .missing hsuper hmet hnext, Nat.le_add_left 1 left⟩
      | some next =>
        -- the superclass has a name that is not met, so fewer names are left above it
        obtain ⟨rfl, hmem⟩ := hfind hnext
        have hlt := List.length_filter_not_mem_cons_lt hmem hmet
        obtain ⟨chain, ending, hchain, hlength⟩ :=
          ih _ (hleft ▸ hlt) (record.name :: below) next rfl
        refine ⟨record :: chain, ending, .next hsuper hmet hnext hchain, ?_⟩
        rw [List.length_cons]
        omega

namespace Query

variable {query : Query} {met : TypeSet} {below : List TypeName} {record : Record}
  {chain asked : List Record} {ending : Chain.Ending} {verdict : Verdict}

/-! ### Ascents go along chains -/

/-- A bound that is not reached does not show: a chain that is no longer than the bound is followed
to its end. -/
theorem Asks.ascend_eq (h : query.Asks find met record asked verdict) {bound : Nat}
    (hbound : asked.length ≤ bound + 1) : query.ascend find bound met record = verdict := by
  induction h generalizing bound with
  | settled hanswer => rw [ascend, hanswer]
  | atRoot hopen hroot =>
    rw [ascend, hopen]
    simp only [hroot]
  | cyclic hopen hsuper hmet =>
    rw [ascend, hopen]
    simp only [hsuper, if_pos hmet]
  | unresolved hopen hsuper hnew hnone =>
    rw [ascend, hopen]
    simp only [hsuper, if_neg hnew, hnone]
  | next hopen hsuper hnew hsome hasks ih =>
    -- a record is asked after this one, so the bound is not used up
    have hpos : 0 < bound := by
      cases hasks <;> simp only [List.length_cons] at hbound <;> omega
    obtain ⟨bound, rfl⟩ := Nat.exists_eq_add_of_lt hpos
    rw [Nat.zero_add, ascend, hopen]
    simp only [hsuper, if_neg hnew, hsome]
    exact ih (by simp only [List.length_cons] at hbound; omega)

theorem Asks.unique {verdict' : Verdict} {asked' : List Record}
    (h : query.Asks find met record asked verdict)
    (h' : query.Asks find met record asked' verdict') : verdict = verdict' := by
  have hbound : asked.length ≤ asked.length + asked'.length + 1 := by omega
  exact (h.ascend_eq hbound).symm.trans (h'.ascend_eq (by omega))

theorem along_cons_of_some {answer : Bool} (h : query.verdict? record = some answer) :
    query.along (record :: chain) ending = .settled answer := by
  rw [along, List.findSome?_cons, h]
  rfl

theorem along_cons_of_none (h : query.verdict? record = none) :
    query.along (record :: chain) ending = query.along chain ending := by
  rw [along, List.findSome?_cons, h]
  rfl

theorem Asks.exists_of_settled {answer : Bool} (h : query.verdict? record = some answer)
    (chain : List Record) (ending : Chain.Ending) : ∃ asked, asked <+: record :: chain ∧
      query.Asks find met record asked (query.along (record :: chain) ending) := by
  rw [along_cons_of_some h]
  exact ⟨[record], List.prefix_append [record] chain, .settled h⟩

/-- An ascent is put to the classes of the chain in turn, and comes to what comes of the chain. -/
theorem Asks.exists_of_chain (h : Chain find below record chain ending)
    (hfind : ∀ {name : TypeName} {record : Record}, find name = some record → record.name = name)
    (hmet : ∀ name, name ∈ met ↔ name ∈ record.name :: below) (query : Query) :
    ∃ asked, asked <+: chain ∧ query.Asks find met record asked (query.along chain ending) := by
  -- a class that answers ends the ascent wherever it stands on the chain
  induction h generalizing met with
  | @root _ record hroot =>
    cases hopen : query.verdict? record with
    | some => exact exists_of_settled hopen _ _
    | none =>
      rw [along_cons_of_none hopen]
      exact ⟨[record], List.prefix_rfl, .atRoot hopen hroot⟩
  | @repeated _ record _ hsuper hold =>
    cases hopen : query.verdict? record with
    | some => exact exists_of_settled hopen _ _
    | none =>
      rw [along_cons_of_none hopen]
      exact ⟨[record], List.prefix_rfl, .cyclic hopen hsuper ((hmet _).2 hold)⟩
  | @missing _ record _ hsuper hnew hnone =>
    cases hopen : query.verdict? record with
    | some => exact exists_of_settled hopen _ _
    | none =>
      rw [along_cons_of_none hopen]
      exact ⟨[record], List.prefix_rfl, .unresolved hopen hsuper (mt (hmet _).1 hnew) hnone⟩
  | @next below record next superclass chain ending hsuper hnew hsome _ ih =>
    cases hopen : query.verdict? record with
    | some => exact exists_of_settled hopen _ _
    | none =>
      have hmet' : ∀ name, name ∈ met.insert superclass ↔
          name ∈ next.name :: record.name :: below := by
        intro name
        rw [Std.ExtTreeSet.mem_insert, Std.compare_eq_iff_eq, hmet, hfind hsome,
          List.mem_cons (b := superclass), eq_comm]
      obtain ⟨asked, hfirst, hasks⟩ := ih hmet'
      rw [along_cons_of_none hopen]
      exact ⟨record :: asked, (List.prefix_cons_inj record).2 hfirst,
        .next hopen hsuper (mt (hmet _).1 hnew) hsome hasks⟩

/-- An ascent that answers comes to the same answer where more can be found. -/
theorem Asks.mono (hmore : ∀ {name : TypeName} {record : Record}, find name = some record →
      find' name = some record) {answer : Bool}
    (h : query.Asks find met record asked (.settled answer)) :
    query.Asks find' met record asked (.settled answer) := by
  generalize hverdict : Verdict.settled answer = verdict at h
  induction h with
  | settled hanswer => exact .settled hanswer
  | next hopen hsuper hnew hsome _ ih => exact .next hopen hsuper hnew (hmore hsome) (ih hverdict)
  | atRoot | cyclic | unresolved => cases hverdict

/-! ### What an ascent has to say -/

/-- What a verdict has to say of a chain: "yes" if the pattern selects a name of some class on it,
and to report how the chain ends if it says "no". -/
def Tells (query : Query) (chain : List Record) (ending : Chain.Ending) (verdict : Verdict) :
    Prop :=
  (verdict.holds = true ↔ ∃ ancestor ∈ chain, query.Selects ancestor) ∧
    verdict.diagnostic? = if verdict.holds then none else ending.diagnostic? query

theorem tells_nil : query.Tells [] ending (ending.verdict query) := by
  simp [Tells, Chain.Ending.verdict_holds, Chain.Ending.verdict_diagnostic?]

theorem Tells.cons (h : query.Tells chain ending verdict) (hselects : ¬query.Selects record) :
    query.Tells (record :: chain) ending verdict := by
  simpa [Tells, hselects] using h

section Plain

variable (hasks : query.property.asksAncestors = true) (hplain : query.pattern.isNegated = false)

include hasks hplain

theorem verdict?_eq_some_true_iff : query.verdict? record = some true ↔ query.Selects record := by
  obtain ⟨property, pattern⟩ := query
  cases property with
  | implementing => simp [verdict?, settledBy, whenSelected, Selects, hplain]
  | extending =>
    cases hsuper : record.superclass <;>
      simp [verdict?, settledBy, whenSelected, Selects, hplain, hsuper]
  | importing => simp [verdict?, settledBy, whenSelected, Selects, hplain]
  | _ => cases hasks

/-- A class says "no" for want of a superclass only. While there is one to ask, the answer is left
to it. -/
theorem superclass_of_verdict?_eq_some_false (h : query.verdict? record = some false) :
    record.superclass = none := by
  obtain ⟨property, pattern⟩ := query
  cases property with
  | implementing => simp [verdict?, settledBy, whenSelected, hplain] at h
  | extending =>
    cases hsuper : record.superclass with
    | none => rfl
    | some superclass => simp [verdict?, settledBy, whenSelected, hplain, hsuper] at h
  | importing => simp [verdict?, settledBy, whenSelected, hplain] at h
  | _ => cases hasks

theorem verdict?_eq_none {superclass : TypeName} (hsuper : record.superclass = some superclass)
    (hselects : ¬query.Selects record) : query.verdict? record = none := by
  cases hanswer : query.verdict? record with
  | none => rfl
  | some answer =>
    cases answer with
    | true => exact absurd ((verdict?_eq_some_true_iff hasks hplain).1 hanswer) hselects
    | false =>
      cases hsuper.symm.trans (superclass_of_verdict?_eq_some_false hasks hplain hanswer)

theorem tells_cons {superclass : TypeName} (hsuper : record.superclass = some superclass)
    (h : query.Tells chain ending (query.along chain ending)) :
    query.Tells (record :: chain) ending (query.along (record :: chain) ending) := by
  by_cases hselects : query.Selects record
  · rw [along_cons_of_some ((verdict?_eq_some_true_iff hasks hplain).2 hselects)]
    exact ⟨iff_of_true rfl ⟨record, List.mem_cons_self, hselects⟩, rfl⟩
  · rw [along_cons_of_none (verdict?_eq_none hasks hplain hsuper hselects)]
    exact h.cons hselects

theorem tells_root : query.Tells [record] .root (query.along [record] .root) := by
  -- the class may say "no" of itself; there is nothing to report either way
  cases hanswer : query.verdict? record with
  | none =>
    have hselects : ¬query.Selects record := fun h => by
      cases hanswer.symm.trans ((verdict?_eq_some_true_iff hasks hplain).2 h)
    rw [along_cons_of_none hanswer]
    exact tells_nil.cons hselects
  | some answer =>
    rw [along_cons_of_some hanswer]
    refine ⟨?_, by cases answer <;> rfl⟩
    simp [Verdict.holds, ← verdict?_eq_some_true_iff hasks hplain, hanswer]

theorem tells_along (h : Chain find below record chain ending) :
    query.Tells chain ending (query.along chain ending) := by
  induction h with
  | root => exact tells_root hasks hplain
  | repeated hsuper | missing hsuper => exact tells_cons hasks hplain hsuper tells_nil
  | next hsuper _ _ _ ih => exact tells_cons hasks hplain hsuper ih

end Plain

end Query

namespace Catalog

variable {catalog later : Catalog} {record : Record} {chain : List Record} {ending : Chain.Ending}

/-! ### Ascents in a catalog -/

theorem exists_chain (catalog : Catalog) (record : Record) :
    ∃ chain ending, Chain catalog.get? [] record chain ending ∧
      chain.length ≤ catalog.size + 1 := by
  have hget : ∀ {name : TypeName} {record : Record}, catalog.get? name = some record →
      record.name = name ∧ name ∈ catalog.records.map Record.name := fun hget =>
    ⟨name_of_get? hget, mem_map_name_records.2 (hget ▸ rfl)⟩
  obtain ⟨chain, ending, hchain, hlength⟩ := Chain.exists_of_names hget [] record
  refine ⟨chain, ending, hchain, hlength.trans (Nat.succ_le_succ ?_)⟩
  calc ((catalog.records.map Record.name).filter (· ∉ [record.name])).length
      ≤ (catalog.records.map Record.name).length := List.length_filter_le _ _
    _ = catalog.size := (List.length_map _).trans catalog.length_records

theorem length_chain_le (h : Chain catalog.get? [] record chain ending) :
    chain.length ≤ catalog.size + 1 := by
  obtain ⟨chain', ending', hchain, hlength⟩ := catalog.exists_chain record
  obtain ⟨rfl, -⟩ := h.unique hchain
  exact hlength

/-- An ascent is over before its bound is reached, and comes to what comes of the chain. -/
theorem asks_judge (h : Chain catalog.get? [] record chain ending) (query : Query) :
    catalog.judge query record = query.along chain ending ∧ ∃ asked, asked <+: chain ∧
      query.Asks catalog.get? {record.name} record asked (catalog.judge query record) := by
  have hmet : ∀ name : TypeName, name ∈ ({record.name} : TypeSet) ↔ name ∈ [record.name] := by
    intro name
    rw [List.mem_singleton, eq_comm]
    exact Std.ExtTreeSet.mem_insert.trans (by simp)
  obtain ⟨asked, hfirst, hasks⟩ := Query.Asks.exists_of_chain h name_of_get? hmet query
  have hjudge : catalog.judge query record = query.along chain ending :=
    hasks.ascend_eq (hfirst.length_le.trans (length_chain_le h))
  exact ⟨hjudge, asked, hfirst, hjudge ▸ hasks⟩

/-- **An ascent sees the whole chain.** Above every class, whether it is in the catalog or not,
there is a chain. A query that asks ancestors, and is not negated, is put to no more classes than
the catalog has and one, each of them on the chain. The answer is "yes" if the pattern selects a
name of some class on the chain; then nothing is reported. If it is "no", how the chain ends is
reported. -/
theorem satisfies_ancestry (catalog : Catalog) {query : Query}
    (hasks : query.property.asksAncestors = true) (hplain : query.pattern.isNegated = false)
    (record : Record) :
    (∃ chain ending, Chain catalog.get? [] record chain ending) ∧
    ∀ chain ending, Chain catalog.get? [] record chain ending →
      (∃ asked, query.Asks catalog.get? {record.name} record asked (catalog.judge query record) ∧
        asked <+: chain ∧ asked.length ≤ catalog.size + 1) ∧
      ((catalog.satisfies query record).1 = true ↔ ∃ ancestor ∈ chain, query.Selects ancestor) ∧
      (catalog.satisfies query record).2 =
        if (catalog.satisfies query record).1 then catalog
        else (ending.diagnostic? query).elim catalog catalog.report := by
  obtain ⟨chain, ending, hchain, -⟩ := catalog.exists_chain record
  refine ⟨⟨chain, ending, hchain⟩, fun chain ending hchain => ?_⟩
  obtain ⟨hjudge, asked, hfirst, hrun⟩ := asks_judge hchain query
  obtain ⟨hholds, hdiagnostic⟩ := Query.tells_along hasks hplain hchain
  refine ⟨⟨asked, hrun, hfirst, hfirst.length_le.trans (length_chain_le hchain)⟩, ?_, ?_⟩
  · rwa [satisfies, hjudge]
  · rw [satisfies, hjudge]
    dsimp only
    rw [hdiagnostic]
    split <;> rfl

/-- A class with a superclass, of which nothing else is known. -/
def child (name superclass : String) : Record :=
  { Record.header ⟨name⟩ 52 0 1 with superclass := some ⟨superclass⟩ }

/-- Two classes, each the superclass of the other. -/
def looping : Catalog := ofCalls [("a.jar", child "A" "B"), ("a.jar", child "B" "A")]

/-- The ascent starts at a class that has the name of another one in the catalog, and comes back to
this name. -/
theorem satisfies_ancestry_of_looping :
    let query : Query := ⟨.extending, ⟨"C"⟩⟩
    let shadowed := { child "A" "B" with major := 65 }
    query.property.asksAncestors = true ∧ query.pattern.isNegated = false ∧
      Chain looping.get? [] shadowed [shadowed, child "B" "A"] (.repeated ⟨"B"⟩ ⟨"A"⟩) ∧
      (looping.satisfies query shadowed).1 = false ∧
      (looping.satisfies query shadowed).2.pending = [.cyclic query ⟨"B"⟩ ⟨"A"⟩] := by
  intro query shadowed
  have hplain : query.pattern.isNegated = false := by decide
  have hchain : Chain looping.get? [] shadowed [shadowed, child "B" "A"] (.repeated ⟨"B"⟩ ⟨"A"⟩) :=
    .next rfl (by decide) (get?_ofCalls _ _) (.repeated rfl (by decide))
  have hasks : query.property.asksAncestors = true := rfl
  obtain ⟨-, hall⟩ := satisfies_ancestry looping hasks hplain shadowed
  obtain ⟨-, hholds, hafter⟩ := hall _ _ hchain
  have hnone : ¬∃ ancestor ∈ [shadowed, child "B" "A"], query.Selects ancestor := by
    simp only [List.mem_cons, List.not_mem_nil, or_false, exists_eq_or_imp, exists_eq_left]
    rintro (⟨_, ⟨⟩, hselected⟩ | ⟨_, ⟨⟩, hselected⟩) <;> revert hselected <;> decide
  have hno := Bool.eq_false_iff.2 (mt hholds.1 hnone)
  refine ⟨hasks, hplain, hchain, hno, ?_⟩
  rw [hafter, hno]
  rfl

/-! ### Catalogs that grow -/

/-- Where more classes are known, a class still has the properties that it had. -/
theorem satisfies_mono (hmore : ∀ {name : TypeName} {record : Record},
      catalog.get? name = some record → later.get? name = some record) {query : Query}
    (h : (catalog.satisfies query record).1 = true) : (later.satisfies query record).1 = true := by
  obtain ⟨_, _, hchain, -⟩ := catalog.exists_chain record
  obtain ⟨_, _, hchain', -⟩ := later.exists_chain record
  obtain ⟨-, asked, -, hasks⟩ := asks_judge hchain query
  obtain ⟨-, asked', -, hasks'⟩ := asks_judge hchain' query
  have hsettled : catalog.judge query record = .settled true := by
    rw [satisfies] at h
    cases hverdict : catalog.judge query record with
    | settled answer => rw [hverdict] at h; exact congrArg Verdict.settled h
    | _ => rw [hverdict] at h; cases h
  rw [hsettled] at hasks
  rw [satisfies, ← (hasks.mono hmore).unique hasks']
  rfl

/-- The records stay, in their order, when classes are put in. New ones stand among them, by their
names. -/
theorem records_sublist (hmore : ∀ {name : TypeName} {record : Record},
      catalog.get? name = some record → later.get? name = some record) :
    catalog.records.Sublist later.records := by
  have : Std.Antisymm fun a b : Record => a.name.binary < b.name.binary :=
    ⟨fun a b hab hba => absurd hba (String.lt_asymm hab)⟩
  have hnodup : catalog.records.Nodup := by
    refine List.nodup_iff_pairwise_ne.2 (catalog.records_ascend.imp ?_)
    rintro a _ hlt rfl
    exact String.lt_irrefl _ hlt
  have hsubset : catalog.records ⊆ later.records := fun record hmem =>
    mem_records.2 (hmore (mem_records.1 hmem))
  exact List.sublist_of_subperm_of_pairwise (List.subperm_of_subset hnodup hsubset)
    catalog.records_ascend later.records_ascend

/-- **A growing catalog loses nothing.** Whatever is asked, negated or not, a class that has the
property has it after more classes have been put in; and so what was selected is selected again, in
its order. -/
theorem satisfies_insertAll (catalog : Catalog) (query : Query) (calls : List (String × Record)) :
    (∀ record, (catalog.satisfies query record).1 = true →
      ((catalog.insertAll calls).satisfies query record).1 = true) ∧
    (catalog.select query).1.Sublist ((catalog.insertAll calls).select query).1 := by
  have hmore : ∀ {name : TypeName} {record : Record}, catalog.get? name = some record →
      (catalog.insertAll calls).get? name = some record := by
    intro name record hget
    rw [get?_insertAll, hget]
    rfl
  refine ⟨fun record h => satisfies_mono hmore h, ?_⟩
  rw [select_fst, select_fst]
  exact ((records_sublist hmore).filter _).trans
    (List.monotone_filter_right _ fun record h => satisfies_mono hmore h)

/-- A class is selected for its grandparent, of which nothing is known yet. Then its parent comes
again, with another superclass, and the grandparent closes the chain to a loop. -/
theorem satisfies_insertAll_of_loop :
    let query : Query := ⟨.extending, ⟨"A"⟩⟩
    let catalog := ofCalls [("a.jar", child "B" "A"), ("a.jar", child "C" "B")]
    let later := catalog.insertAll [("b.jar", child "B" "X"), ("b.jar", child "A" "C")]
    (catalog.satisfies query (child "C" "B")).1 = true ∧
      (later.satisfies query (child "C" "B")).1 = true ∧
      (catalog.select query).1.Sublist (later.select query).1 := by
  intro query catalog later
  obtain ⟨hsatisfies, hselect⟩ := satisfies_insertAll catalog query
    [("b.jar", child "B" "X"), ("b.jar", child "A" "C")]
  have hbefore : (catalog.satisfies query (child "C" "B")).1 = true := by decide +kernel
  exact ⟨hbefore, hsatisfies _ hbefore, hselect⟩

end Catalog

end ClassFile
