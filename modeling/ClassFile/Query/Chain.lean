import ClassFile.Query.Ancestry

/-!
# Chains of superclasses

Above a class stands the record of its superclass, above that one the record of the next, and so on:
this is the chain of the class (`ClassFile.Chain`), whatever is asked about it. It ends at a class
that has no superclass, at a superclass of which there is no record, or at a superclass that is on
the chain already.

An ascent goes along the chain until a class settles the query. `ClassFile.Query.Asks` tells what it
does without a bound on its steps, and which classes the query is put to.
-/

namespace ClassFile

/-- How a chain of superclasses ends: at a class without superclass, or at the given class, whose
superclass cannot be gone to. -/
inductive Chain.Ending where
  | root
  /-- The superclass has no record. -/
  | missing (type superclass : TypeName)
  /-- The superclass is on the chain. -/
  | repeated (type superclass : TypeName)

namespace Chain.Ending

/-- How an ascent ends that is not settled by a class of the chain. -/
def verdict (query : Query) : Chain.Ending → Verdict
  | root => .atRoot
  | missing type superclass => .stopped (.unresolved query type superclass)
  | repeated type superclass => .stopped (.cyclic query type superclass)

/-- What there is to report at the end of a chain. -/
def diagnostic? (query : Query) : Chain.Ending → Option Diagnostic
  | root => none
  | missing type superclass => some (.unresolved query type superclass)
  | repeated type superclass => some (.cyclic query type superclass)

theorem verdict_holds (query : Query) (ending : Chain.Ending) :
    (ending.verdict query).holds = false := by
  cases ending <;> rfl

theorem verdict_diagnostic? (query : Query) (ending : Chain.Ending) :
    (ending.verdict query).diagnostic? = ending.diagnostic? query := by
  cases ending <;> rfl

end Chain.Ending

/-- The chain from a record upwards, and its ending. The names below the record are given. A name
that was met is not looked up again, so a superclass may be repeated without having a record: the
class at the start need not be one of those that can be found. -/
inductive Chain (find : TypeName → Option Record) :
    (below : List TypeName) → Record → List Record → Chain.Ending → Prop where
  | root {below : List TypeName} {record : Record} : record.superclass = none →
    Chain find below record [record] .root
  | repeated {below : List TypeName} {record : Record} {superclass : TypeName} :
    record.superclass = some superclass → superclass ∈ record.name :: below →
    Chain find below record [record] (.repeated record.name superclass)
  | missing {below : List TypeName} {record : Record} {superclass : TypeName} :
    record.superclass = some superclass → superclass ∉ record.name :: below →
    find superclass = none → Chain find below record [record] (.missing record.name superclass)
  | next {below : List TypeName} {record next : Record} {superclass : TypeName}
    {chain : List Record} {ending : Chain.Ending} :
    record.superclass = some superclass → superclass ∉ record.name :: below →
    find superclass = some next → Chain find (record.name :: below) next chain ending →
    Chain find below record (record :: chain) ending

/-- A class has one chain only. Each rule for a chain asks for something else of the last class, so
both chains come by the same rule, and the rest is the same by induction. -/
theorem Chain.unique {find : TypeName → Option Record} {below : List TypeName} {record : Record}
    {chain chain' : List Record} {ending ending' : Chain.Ending}
    (h : Chain find below record chain ending) (h' : Chain find below record chain' ending') :
    chain' = chain ∧ ending' = ending := by
  induction h generalizing chain' ending' with
  | root hnone =>
    cases h' with
    | root => exact ⟨rfl, rfl⟩
    | repeated hsome => cases hnone.symm.trans hsome
    | missing hsome => cases hnone.symm.trans hsome
    | next hsome => cases hnone.symm.trans hsome
  | repeated hsome hmem =>
    cases h' with
    | root hnone => cases hnone.symm.trans hsome
    | repeated hsome' =>
      cases hsome.symm.trans hsome'
      exact ⟨rfl, rfl⟩
    | missing hsome' hnew =>
      cases hsome.symm.trans hsome'
      exact absurd hmem hnew
    | next hsome' hnew =>
      cases hsome.symm.trans hsome'
      exact absurd hmem hnew
  | missing hsome hnew hmissing =>
    cases h' with
    | root hnone => cases hnone.symm.trans hsome
    | repeated hsome' hmem =>
      cases hsome.symm.trans hsome'
      exact absurd hmem hnew
    | missing hsome' =>
      cases hsome.symm.trans hsome'
      exact ⟨rfl, rfl⟩
    | next hsome' _ hfound =>
      cases hsome.symm.trans hsome'
      cases hmissing.symm.trans hfound
  | next hsome hnew hfound _ ih =>
    cases h' with
    | root hnone => cases hnone.symm.trans hsome
    | repeated hsome' hmem =>
      cases hsome.symm.trans hsome'
      exact absurd hmem hnew
    | missing hsome' _ hmissing =>
      cases hsome.symm.trans hsome'
      cases hmissing.symm.trans hfound
    | next hsome' _ hfound' hrest =>
      cases hsome.symm.trans hsome'
      cases hfound.symm.trans hfound'
      obtain ⟨rfl, rfl⟩ := ih hrest
      exact ⟨rfl, rfl⟩

namespace Query

/-- The pattern selects a name that a record has for the query: an interface, the superclass, or a
package that is imported. -/
def Selects (query : Query) (record : Record) : Prop :=
  match query.property with
  | .implementing => ∃ interface ∈ record.interfaces, query.pattern.accepts interface.dotted = true
  | .extending =>
    ∃ superclass, record.superclass = some superclass ∧
      query.pattern.accepts superclass.dotted = true
  | .importing => ∃ package ∈ record.imports, query.pattern.accepts package.dotted = true
  | _ => False

/-- What comes of a chain: the first answer that one of its classes has, and how the chain ends if
none of them has one. -/
def along (query : Query) (chain : List Record) (ending : Chain.Ending) : Verdict :=
  (chain.findSome? query.verdict?).elim (ending.verdict query) .settled

/-- An ascent without a bound, where the names met so far are given: the records that the query is
put to, and how it ends. -/
inductive Asks (query : Query) (find : TypeName → Option Record) :
    (met : TypeSet) → Record → List Record → Verdict → Prop where
  | settled {met : TypeSet} {record : Record} {answer : Bool} :
    query.verdict? record = some answer → Asks query find met record [record] (.settled answer)
  | atRoot {met : TypeSet} {record : Record} :
    query.verdict? record = none → record.superclass = none →
    Asks query find met record [record] .atRoot
  | cyclic {met : TypeSet} {record : Record} {superclass : TypeName} :
    query.verdict? record = none → record.superclass = some superclass → superclass ∈ met →
    Asks query find met record [record] (.stopped (.cyclic query record.name superclass))
  | unresolved {met : TypeSet} {record : Record} {superclass : TypeName} :
    query.verdict? record = none → record.superclass = some superclass → superclass ∉ met →
    find superclass = none →
    Asks query find met record [record] (.stopped (.unresolved query record.name superclass))
  | next {met : TypeSet} {record next : Record} {superclass : TypeName} {asked : List Record}
    {verdict : Verdict} :
    query.verdict? record = none → record.superclass = some superclass → superclass ∉ met →
    find superclass = some next → Asks query find (met.insert superclass) next asked verdict →
    Asks query find met record (record :: asked) verdict

end Query

end ClassFile
