import ClassFile.Query.Expression
import Mathlib.Data.List.Basic

/-!
# What patterns select

A pattern selects a name if its glob stands for the whole name, or if the glob ends in `.*` and what
is in front of that stands for the name (`ClassFile.Pattern.Selects`). In this a wildcard stands for
characters of some kind (`ClassFile.Glob.Covers`): for any character whatever, one would think, but
a line feed is not among those that are taken (`ClassFile.Pattern.accepts_meaning`). So the two
differ in names with a line feed only, and there a pattern selects less.

The expression that a pattern is turned into (`ClassFile.Pattern.expression`) is found in a name if
and only if the pattern selects the name: of a glob it matches what the glob stands for, whatever
there is on both sides (`ClassFile.Expression.spans_ofGlob_iff`), and the anchors take care of the
sides.
-/

namespace ClassFile

namespace Glob

/-! ### What a glob stands for -/

/-- What a piece of a glob stands for, if a wildcard stands for characters of this kind. -/
def Piece.Covers (wild : Char → Prop) : Piece → List Char → Prop
  | .run, text => ∀ c ∈ text, wild c
  | .one, text => ∃ c, text = [c] ∧ wild c
  | .char d, text => text = [d]

/-- What a glob stands for: its pieces stand for one part of the text after the other. -/
def Covers (wild : Char → Prop) : Glob → List Char → Prop
  | [], text => text = []
  | piece :: glob, text =>
    ∃ front rest, text = front ++ rest ∧ piece.Covers wild front ∧ Covers wild glob rest

variable {wild : Char → Prop} {glob more : Glob} {text : List Char}

/-- Two globs one after the other stand for two texts one after the other. -/
theorem covers_append_iff : (glob ++ more).Covers wild text ↔
    ∃ front rest, text = front ++ rest ∧ glob.Covers wild front ∧ more.Covers wild rest := by
  induction glob generalizing text with
  | nil =>
    constructor
    · exact fun h => ⟨[], text, rfl, rfl, h⟩
    · rintro ⟨_, rest, rfl, rfl, h⟩
      exact h
  | cons piece glob ih =>
    simp only [List.cons_append, Covers, ih]
    constructor
    · rintro ⟨first, _, rfl, hfirst, front, rest, rfl, hfront, hrest⟩
      exact ⟨first ++ front, rest, (List.append_assoc ..).symm, ⟨first, front, rfl, hfirst, hfront⟩,
        hrest⟩
    · rintro ⟨_, rest, rfl, ⟨first, front, rfl, hfirst, hfront⟩, hrest⟩
      exact ⟨first, front ++ rest, List.append_assoc .., hfirst, front, rest, rfl, hfront, hrest⟩

/-- Only the characters of the text matter: what is covered stays so under a condition that lets in
more, as long as it lets in these. -/
theorem Piece.Covers.mono {piece : Piece} {wild' : Char → Prop} (h : piece.Covers wild text)
    (hwild : ∀ c ∈ text, wild c → wild' c) : piece.Covers wild' text := by
  cases piece with
  | run => exact fun c hc => hwild c hc (h c hc)
  | one =>
    obtain ⟨c, rfl, hc⟩ := h
    exact ⟨c, rfl, hwild c List.mem_cons_self hc⟩
  | char d => exact h

theorem Covers.mono {wild' : Char → Prop} (h : glob.Covers wild text)
    (hwild : ∀ c ∈ text, wild c → wild' c) : glob.Covers wild' text := by
  induction glob generalizing text with
  | nil => exact h
  | cons piece glob ih =>
    obtain ⟨front, rest, rfl, hfront, hrest⟩ := h
    exact ⟨front, rest, rfl, hfront.mono fun c hc => hwild c (List.mem_append_left _ hc),
      ih hrest fun c hc => hwild c (List.mem_append_right _ hc)⟩

/-- A run takes some characters at once: those that it stands for, and the rest is left to the
pieces behind it. -/
theorem matches_run_iff : Matches (.run :: glob) text ↔
    ∃ run rest, text = run ++ rest ∧ (∀ c ∈ run, c ≠ '\n') ∧ Matches glob rest := by
  induction text with
  | nil =>
    constructor
    · intro h
      cases h with
      | stop h => exact ⟨[], [], rfl, nofun, h⟩
    · rintro ⟨run, rest, htext, -, h⟩
      obtain ⟨-, rfl⟩ := List.nil_eq_append_iff.1 htext
      exact .stop h
  | cons c text ih =>
    rw [matches_run_cons_iff, ih]
    constructor
    · rintro (h | ⟨hc, run, rest, rfl, hrun, h⟩)
      · exact ⟨[], c :: text, rfl, nofun, h⟩
      · exact ⟨c :: run, rest, rfl, List.forall_mem_cons.2 ⟨hc, hrun⟩, h⟩
    · rintro ⟨run, rest, htext, hrun, h⟩
      cases run with
      | nil =>
        rw [List.nil_append] at htext
        exact .inl (htext ▸ h)
      | cons d run =>
        obtain ⟨rfl, rfl⟩ := List.cons.inj htext
        obtain ⟨hc, hrun⟩ := List.forall_mem_cons.1 hrun
        exact .inr ⟨hc, run, rest, rfl, hrun, h⟩

/-- What is decided is what a glob stands for if its wildcards stand for no line feed. -/
theorem matches_iff_covers : Matches glob text ↔ glob.Covers (· ≠ '\n') text := by
  induction glob generalizing text with
  | nil => exact ⟨fun h => by cases h; rfl, fun h => h ▸ .nil⟩
  | cons piece glob ih =>
    cases piece with
    | run => simp only [matches_run_iff, Covers, Piece.Covers, ih]
    | one =>
      constructor
      · intro h
        cases h with
        | one hc h => exact ⟨[_], _, rfl, ⟨_, rfl, hc⟩, ih.1 h⟩
      · rintro ⟨_, rest, rfl, ⟨c, rfl, hc⟩, h⟩
        exact .one hc (ih.2 h)
    | char d =>
      constructor
      · intro h
        cases h with
        | char h => exact ⟨[d], _, rfl, rfl, ih.1 h⟩
      · rintro ⟨_, rest, rfl, rfl, h⟩
        exact .char (ih.2 h)

end Glob

/-! ### What an expression matches -/

namespace Expression

variable {before piece behind : List Char} {first second : Expression}

theorem spans_seq_iff : Spans (.seq first second) before piece behind ↔
    ∃ front rest, piece = front ++ rest ∧ Spans first before front (rest ++ behind) ∧
      Spans second (before ++ front) rest behind := by
  constructor
  · intro h
    cases h with
    | seq hfirst hsecond => exact ⟨_, _, rfl, hfirst, hsecond⟩
  · rintro ⟨front, rest, rfl, hfirst, hsecond⟩
    exact .seq hfirst hsecond

theorem spans_star_dot_iff : Spans (.star .dot) before piece behind ↔ ∀ c ∈ piece, c ≠ '\n' := by
  constructor
  · intro h
    generalize hexpression : Expression.star .dot = expression at h
    induction h with
    | stop => exact nofun
    | more hinner _ _ ih =>
      cases hexpression
      cases hinner with
      | dot hc => exact List.forall_mem_cons.2 ⟨hc, ih rfl⟩
    | _ => cases hexpression
  · intro h
    induction piece generalizing before with
    | nil => exact .stop
    | cons c piece ih =>
      obtain ⟨hc, h⟩ := List.forall_mem_cons.1 h
      exact .more (.dot hc) (ih h)

theorem spans_ofChar_iff (c : Char) : Spans (ofChar c) before piece behind ↔
    (Glob.Piece.ofChar c).Covers (· ≠ '\n') piece := by
  unfold ofChar Glob.Piece.ofChar
  split
  · exact spans_star_dot_iff
  split
  · constructor
    · intro h
      cases h with
      | dot hc => exact ⟨_, rfl, hc⟩
    · rintro ⟨d, rfl, hd⟩
      exact .dot hd
  · constructor
    · intro h
      cases h
      rfl
    · rintro rfl
      exact .literal

/-- Of a glob an expression matches what the glob stands for, whatever there is on both sides. -/
theorem spans_ofGlob_iff (chars : List Char) : Spans (ofGlob chars) before piece behind ↔
    (Glob.ofChars chars).Covers (· ≠ '\n') piece := by
  induction chars generalizing before piece with
  | nil =>
    constructor
    · intro h
      cases h
      rfl
    · rintro rfl
      exact .empty
  | cons c chars ih =>
    refine spans_seq_iff.trans ?_
    simp only [spans_ofChar_iff]
    exact exists₂_congr fun _ _ => and_congr_right fun _ => and_congr_right fun _ => ih

/-- Between its anchors an expression has to match the whole text. -/
theorem foundIn_anchored_iff {expression : Expression} {text : List Char} :
    expression.anchored.FoundIn text ↔ expression.Spans [] text [] := by
  constructor
  · rintro ⟨before, _, behind, rfl, h⟩
    cases h with
    | seq hstart h =>
      cases hstart
      cases h with
      | seq h hend =>
        cases hend
        simpa using h
  · intro h
    have hend : Spans .atEnd text [] [] := .atEnd
    have hinner : Spans (.seq expression .atEnd) [] (text ++ []) [] := .seq h hend
    rw [List.append_nil] at hinner
    exact ⟨[], text, [], by simp, .seq .atStart hinner⟩

/-- Behind its stem a pattern matches nothing, or a dot and anything but line feeds. -/
theorem spans_below_iff : Spans Pattern.below before piece behind ↔
    piece = [] ∨ (Glob.ofChars ['.', '*']).Covers (· ≠ '\n') piece := by
  have hglob : Spans (ofGlob ['.', '*']) before piece behind ↔
      (Glob.ofChars ['.', '*']).Covers (· ≠ '\n') piece := spans_ofGlob_iff _
  rw [← hglob]
  constructor
  · intro h
    cases h with
    | absent => exact .inl rfl
    | present h => exact .inr h
  · rintro (rfl | h)
    · exact .absent
    · exact .present h

end Expression

/-! ### What a pattern selects -/

namespace Pattern

/-- The glob of a pattern stands for the whole name, or it ends in `.*` and what is in front of that
stands for the name; a wildcard stands for characters of this kind. -/
def Selects (wild : Char → Prop) (pattern : Pattern) (name : String) : Prop :=
  (Glob.ofChars pattern.body).Covers wild name.toList ∨
    ∃ stem, pattern.body = stem ++ ['.', '*'] ∧ (Glob.ofChars stem).Covers wild name.toList

variable {pattern : Pattern} {name : String}

theorem accepts_iff_selects : pattern.accepts name = true ↔ pattern.Selects (· ≠ '\n') name := by
  simp only [accepts, globs, Selects, List.any_cons, Bool.or_eq_true, Glob.accepts_iff,
    Glob.matches_iff_covers, ← stem?_eq_some_iff]
  cases stem? pattern.body <;> simp [Glob.accepts_iff, Glob.matches_iff_covers]

/-- The expression of a pattern is found in the names that the pattern selects. -/
theorem foundIn_expression_iff :
    pattern.expression.FoundIn name.toList ↔ pattern.Selects (· ≠ '\n') name := by
  rw [expression, Expression.foundIn_anchored_iff, Selects]
  cases hstem : stem? pattern.body with
  | none =>
    have hnone : ∀ stem, pattern.body ≠ stem ++ ['.', '*'] := fun stem h => by
      rw [stem?_eq_some_iff.2 h] at hstem
      cases hstem
    simp [Expression.spans_ofGlob_iff, hnone]
  | some stem =>
    have hbody := stem?_eq_some_iff.1 hstem
    have hwhole : Glob.ofChars pattern.body = Glob.ofChars stem ++ Glob.ofChars ['.', '*'] := by
      rw [hbody, Glob.ofChars, List.map_append]
      rfl
    have hsame (other : List Char) : pattern.body = other ++ ['.', '*'] ↔ other = stem := by
      rw [hbody, List.append_cancel_right_eq, eq_comm]
    simp only [hwhole, hsame, exists_eq_left, Glob.covers_append_iff, Expression.spans_seq_iff,
      Expression.spans_ofGlob_iff, Expression.spans_below_iff]
    constructor
    · rintro ⟨front, rest, hname, hfront, rfl | hrest⟩
      · rw [List.append_nil] at hname
        exact .inr (hname ▸ hfront)
      · exact .inl ⟨front, rest, hname, hfront, hrest⟩
    · rintro (⟨front, rest, hname, hfront, hrest⟩ | h)
      · exact ⟨front, rest, hname, hfront, .inr hrest⟩
      · exact ⟨name.toList, [], (List.append_nil _).symm, h, .inl rfl⟩

theorem Selects.mono {wild wild' : Char → Prop} (h : pattern.Selects wild name)
    (hwild : ∀ c ∈ name.toList, wild c → wild' c) : pattern.Selects wild' name := by
  obtain h | ⟨stem, hbody, h⟩ := h
  · exact .inl (h.mono hwild)
  · exact .inr ⟨stem, hbody, h.mono hwild⟩

/-- **A pattern selects what its expression is found in**, and that is what its glob stands for, but
with wildcards that do not stand for line feeds. What it selects it would select if they did; and if
the name has no line feed, it selects all of that. -/
theorem accepts_meaning (pattern : Pattern) (name : String) :
    (pattern.accepts name = true ↔ pattern.expression.FoundIn name.toList) ∧
    (pattern.accepts name = true ↔ pattern.Selects (· ≠ '\n') name) ∧
    (pattern.accepts name = true → pattern.Selects (fun _ => True) name) ∧
    ('\n' ∉ name.toList →
      (pattern.accepts name = true ↔ pattern.Selects (fun _ => True) name)) := by
  have hselects : pattern.accepts name = true ↔ pattern.Selects (· ≠ '\n') name :=
    accepts_iff_selects
  have hall (h : pattern.accepts name = true) : pattern.Selects (fun _ => True) name :=
    (hselects.1 h).mono fun _ _ _ => trivial
  refine ⟨hselects.trans foundIn_expression_iff.symm, hselects, hall, fun hname =>
    ⟨hall, fun h => ?_⟩⟩
  exact hselects.2 (h.mono fun c hc _ hfeed => hname (hfeed ▸ hc))

/-- The stem of a pattern and a name below it are selected, and a name that only begins with the
stem is not. One that has a line feed there is not selected either. -/
theorem accepts_meaning_of_package :
    let pattern : Pattern := ⟨"!com.acme.*"⟩
    pattern.Selects (fun _ => True) "com.acme" ∧ pattern.Selects (fun _ => True) "com.acme.Foo" ∧
      ¬pattern.Selects (fun _ => True) "com.acmeFoo" ∧
        ¬pattern.Selects (· ≠ '\n') "com.acme.\n" := by
  intro pattern
  have hplain {name : String} (hname : '\n' ∉ name.toList) :
      pattern.accepts name = true ↔ pattern.Selects (fun _ => True) name :=
    (accepts_meaning pattern name).2.2.2 hname
  exact ⟨(hplain (by decide)).1 (by decide +kernel), (hplain (by decide)).1 (by decide +kernel),
    mt (hplain (by decide)).2 (by decide +kernel),
    mt (accepts_meaning pattern _).2.1.2 (by decide +kernel)⟩

/-- A class that has a line feed in its name is not selected by a lone run, although a run stands
for any characters. -/
theorem accepts_differs_of_lineFeed :
    ¬∀ (pattern : Pattern) (name : String),
      pattern.accepts name = true ↔ pattern.Selects (fun _ => True) name := by
  intro h
  have hselects : Pattern.Selects (fun _ => True) ⟨"*"⟩ "A\nB" :=
    .inl ⟨"A\nB".toList, [], (List.append_nil _).symm, fun _ _ => trivial, rfl⟩
  exact absurd ((h ⟨"*"⟩ "A\nB").2 hselects) (by decide +kernel)

end Pattern

end ClassFile
