import ClassFile.Proofs.Catalogs

/-!
# Negated patterns

A pattern with the sign of negation in front has the glob of the pattern without it, and the sign
is looked at where the glob selects a name: the answer is "no" then. Where the glob selects none,
nothing makes the answer "yes". So no class has a property with a negated pattern, whatever the
property and whatever is known of its ancestors (`ClassFile.Query.holds_judge_of_isNegated`), and
negation turns an answer around exactly where it was "yes" (`ClassFile.Query.judge_negated`).
-/

namespace ClassFile

namespace Pattern

variable {text : String}

theorem isNegated_negated (text : String) : isNegated ⟨"!" ++ text⟩ = true := by
  simp [isNegated]

theorem body_negated (text : String) : body ⟨"!" ++ text⟩ = text.toList := by
  simp [body]

theorem body_of_plain (hplain : text.toList.head? ≠ some '!') : body ⟨text⟩ = text.toList := by
  rw [body]
  split
  · rename_i hsign
    exact absurd (congrArg List.head? hsign) hplain
  · rfl

/-- The sign of negation is no part of the glob: a name is matched against what stands behind it. -/
theorem accepts_negated (hplain : text.toList.head? ≠ some '!') (name : String) :
    accepts ⟨"!" ++ text⟩ name = accepts ⟨text⟩ name := by
  rw [accepts, accepts, globs, globs, body_negated, body_of_plain hplain]

end Pattern

namespace Query

variable {query : Query} {record : Record}

/-! ### No class has a negated property -/

/-- No record says "yes" to a negated pattern, since the match and the negation are both asked
for. -/
theorem verdict?_of_isNegated (hneeds : query.property.needsPattern = true)
    (hnegated : query.pattern.isNegated = true) (record : Record) :
    query.verdict? record ≠ some true := by
  obtain ⟨property, pattern⟩ := query
  have hsettled (names : List String) : settledBy ⟨property, pattern⟩ names ≠ some true := by
    rw [settledBy]
    split
    · simp [whenSelected, hnegated]
    · nofun
  cases property with
  | named | version | annotated => simp [verdict?, whenSelected, hnegated]
  | implementing | importing => exact hsettled _
  | extending =>
    rw [verdict?]
    dsimp only
    split
    · nofun
    · exact hsettled _
  | _ => cases hneeds

/-- An ascent ends with "no" if no record can say "yes", wherever it comes to. -/
theorem holds_ascend_of_forall (hno : ∀ record, query.verdict? record ≠ some true)
    (find : TypeName → Option Record) (bound : Nat) (met : TypeSet) (record : Record) :
    (query.ascend find bound met record).holds = false := by
  fun_induction ascend query find bound met record with
  | case1 _ _ record answer hanswer =>
    -- the record settles the query
    exact Bool.eq_false_iff.2 fun hyes : answer = true => hno record (hyes ▸ hanswer)
  | case2 | case3 | case5 => rfl
  | case4 _ _ _ _ _ _ _ _ _ ih => exact ih

/-- No class has a property with a negated pattern, nor does it inherit one. -/
theorem holds_judge_of_isNegated (hneeds : query.property.needsPattern = true)
    (hnegated : query.pattern.isNegated = true) (find : TypeName → Option Record) (bound : Nat)
    (record : Record) : (query.judge find bound record).holds = false :=
  holds_ascend_of_forall (verdict?_of_isNegated hneeds hnegated) find bound _ record

/-! ### Properties of the class alone -/

/-- The names that a class has for a property that no ancestor is asked for. -/
def ownNames (property : Property) (record : Record) : List String :=
  match property with
  | .named => [record.name.dotted]
  | .version => [record.version]
  | .annotated => record.annotationTypes.toList.map TypeName.sourceName
  | _ => []

/-- Where no ancestor is asked, it is settled at once whether the glob selects a name. -/
theorem judge_of_own (hneeds : query.property.needsPattern = true)
    (hown : query.property.asksAncestors = false) (find : TypeName → Option Record) (bound : Nat)
    (record : Record) : query.judge find bound record = .settled
      ((ownNames query.property record).any query.pattern.accepts && query.whenSelected) := by
  have hverdict : query.verdict? record =
      some ((ownNames query.property record).any query.pattern.accepts && query.whenSelected) := by
    obtain ⟨property, pattern⟩ := query
    cases property with
    | named | version => simp [verdict?, ownNames]
    | annotated => rfl
    | implementing | extending | importing => cases hown
    | _ => cases hneeds
  rw [judge, ascend.eq_def]
  dsimp only
  rw [hverdict]

/-- **Negation turns "yes" into "no", and leaves "no" alone.** A pattern with the sign of negation
in front has the same glob. Where no ancestor is asked, a class has the property if the glob selects
one of its names, and with the negated pattern it has not. So whatever the property is, whatever
records there are, and in every catalog, nothing has it with the negated pattern; and the two
answers are opposite for those classes that have it with the plain one. -/
theorem judge_negated {property : Property} (hneeds : property.needsPattern = true) {text : String}
    (hplain : text.toList.head? ≠ some '!') :
    let plain : Query := ⟨property, ⟨text⟩⟩
    let negated : Query := ⟨property, ⟨"!" ++ text⟩⟩
    (∀ name, negated.pattern.accepts name = plain.pattern.accepts name) ∧
    (∀ (find : TypeName → Option Record) (bound : Nat) (record : Record),
      (property.asksAncestors = false →
        plain.judge find bound record =
          .settled ((ownNames property record).any plain.pattern.accepts) ∧
        negated.judge find bound record = .settled false) ∧
      (negated.judge find bound record).holds = false ∧
      ((negated.judge find bound record).holds = !(plain.judge find bound record).holds ↔
        (plain.judge find bound record).holds = true)) ∧
    ∀ catalog : Catalog, (catalog.select negated).1 = [] := by
  intro plain negated
  have hsign : negated.pattern.isNegated = true := Pattern.isNegated_negated text
  have hnone : plain.pattern.isNegated = false := decide_eq_false hplain
  have hholds : ∀ find bound record, (negated.judge find bound record).holds = false :=
    holds_judge_of_isNegated hneeds hsign
  refine ⟨Pattern.accepts_negated hplain, fun find bound record => ⟨fun hown => ⟨?_, ?_⟩, ?_, ?_⟩,
    fun catalog => ?_⟩
  · rw [judge_of_own hneeds hown, whenSelected, hnone, Bool.not_false, Bool.and_true]
  · rw [judge_of_own hneeds hown, whenSelected, hsign, Bool.not_true, Bool.and_false]
  · exact hholds find bound record
  · rw [hholds find bound record]
    cases (plain.judge find bound record).holds <;> decide
  · rw [Catalog.select_fst, List.filter_eq_nil_iff]
    intro record _ hselected
    rw [Catalog.satisfies, Catalog.judge, hholds] at hselected
    cases hselected

/-- A class that the pattern selects has the property, and a class that it does not select has not;
neither has it with the negated pattern. -/
theorem judge_negated_of_named :
    Property.named.needsPattern = true ∧ Property.named.asksAncestors = false ∧
      "p.*".toList.head? ≠ some '!' ∧
      (Query.mk .named ⟨"p.*"⟩).judge (fun _ => none) 0 (.header ⟨"p/A"⟩ 52 0 1) = .settled true ∧
      (Query.mk .named ⟨"!p.*"⟩).judge (fun _ => none) 0 (.header ⟨"p/A"⟩ 52 0 1) = .settled false ∧
      (Query.mk .named ⟨"p.*"⟩).judge (fun _ => none) 0 (.header ⟨"B"⟩ 52 0 1) = .settled false ∧
      (Query.mk .named ⟨"!p.*"⟩).judge (fun _ => none) 0 (.header ⟨"B"⟩ 52 0 1) =
        .settled false := by
  have hplain : "p.*".toList.head? ≠ some '!' := by decide
  have hneeds : Property.named.needsPattern = true := rfl
  obtain ⟨-, hall, -⟩ := judge_negated hneeds hplain
  obtain ⟨hselected, hselected'⟩ := (hall (fun _ => none) 0 (.header ⟨"p/A"⟩ 52 0 1)).1 rfl
  obtain ⟨hother, hother'⟩ := (hall (fun _ => none) 0 (.header ⟨"B"⟩ 52 0 1)).1 rfl
  refine ⟨rfl, rfl, hplain, hselected.trans (congrArg _ ?_), hselected',
    hother.trans (congrArg _ ?_), hother'⟩
  · decide +kernel
  · decide +kernel

/-- A class that is not in a package is not outside of it either: the negated pattern selects no
class, whatever it is a pattern for. -/
theorem judge_negated_differs_of_other :
    ¬∀ (property : Property) (text : String) (record : Record),
      property ∈ [Property.named, .version, .annotated] → text.toList.head? ≠ some '!' →
      ((Query.mk property ⟨"!" ++ text⟩).judge (fun _ => none) 0 record).holds =
        !((Query.mk property ⟨text⟩).judge (fun _ => none) 0 record).holds := by
  intro h
  have hopposite := h .named "p.*" (.header ⟨"B"⟩ 52 0 1) (by decide) (by decide)
  exact absurd hopposite (by decide +kernel)

end Query

end ClassFile
