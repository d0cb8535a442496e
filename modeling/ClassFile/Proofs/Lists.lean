/-!
# Lists that are used as sets

Names, sources and diagnostics are kept in lists, so that their order is known. What is new goes to
the end, and what is known already is left where it is. An element that is met is taken out of the
list of those that are not met.
-/

namespace ClassFile

/-- Elements that are put at the end of a list unless they are in it come to stand there, each at
its first place. -/
theorem List.foldl_putNew {α : Type} [DecidableEq α] (news olds : List α) :
    news.foldl (fun known new => if new ∈ known then known else known ++ [new]) olds =
      olds ++ (news.filter (· ∉ olds)).eraseDups := by
  induction news generalizing olds with
  | nil => exact (List.append_nil olds).symm
  | cons new news ih =>
    rw [List.foldl_cons, ih]
    by_cases hknown : new ∈ olds
    · rw [if_pos hknown, List.filter_cons_of_neg (by simpa using hknown)]
    · have hrest : (news.filter (· ∉ olds ++ [new])) =
          (news.filter (· ∉ olds)).filter fun other => !other == new := by
        rw [List.filter_filter]
        exact List.filter_congr fun other _ => by grind
      rw [if_neg hknown, List.filter_cons_of_pos (by simpa using hknown), List.eraseDups_cons,
        List.append_assoc, hrest]
      rfl

/-- An element that is met leaves fewer that are not met. -/
theorem List.length_filter_not_mem_cons_lt {α : Type} [DecidableEq α] {all met : List α} {new : α}
    (hmem : new ∈ all) (hnew : new ∉ met) :
    (all.filter (· ∉ new :: met)).length < (all.filter (· ∉ met)).length := by
  have hfilter : all.filter (· ∉ new :: met) =
      (all.filter (· ∉ met)).filter fun other => other ≠ new := by
    rw [List.filter_filter]
    exact List.filter_congr fun other _ => by simp
  rw [hfilter]
  exact List.length_filter_lt_length_iff_exists.2
    ⟨new, List.mem_filter.2 ⟨hmem, by simpa using hnew⟩, by simp⟩

end ClassFile
