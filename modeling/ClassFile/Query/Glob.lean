/-!
# Globs

A glob stands for a set of texts: `*` for any run of characters, `?` for one character,
and every other character for itself. The line feed is in no run and is no `?`; only a
line feed in the glob itself stands for it.

`Glob.Matches` says which texts a glob stands for. `Glob.accepts` decides it without
going back over the text. It keeps a mark for every tail of the glob: the tails that the
rest of the text may still be matched with. A character of the text moves the marks
(`Glob.step`), so the work is the length of the glob for each character, however many
runs there are.
-/

namespace ClassFile

/-- One piece of a glob. -/
inductive Glob.Piece where
  /-- Any run of characters, none of them a line feed. -/
  | run
  /-- One character other than a line feed. -/
  | one
  /-- This character. -/
  | char (c : Char)
  deriving DecidableEq, Repr

/-- A glob, piece by piece. -/
abbrev Glob := List Glob.Piece

namespace Glob

/-- What one character of a glob stands for. -/
def Piece.ofChar (c : Char) : Piece :=
  if c = '*' then .run else if c = '?' then .one else .char c

/-- The glob that is written so. -/
def ofChars (chars : List Char) : Glob :=
  chars.map Piece.ofChar

/-- Which texts a glob stands for. -/
inductive Matches : Glob → List Char → Prop where
  | nil : Matches [] []
  | char {c : Char} {glob : Glob} {text : List Char} :
      Matches glob text → Matches (.char c :: glob) (c :: text)
  | one {c : Char} {glob : Glob} {text : List Char} :
      c ≠ '\n' → Matches glob text → Matches (.one :: glob) (c :: text)
  /-- A run ends. -/
  | stop {glob : Glob} {text : List Char} : Matches glob text → Matches (.run :: glob) text
  /-- A run takes one more character. -/
  | more {c : Char} {glob : Glob} {text : List Char} :
      c ≠ '\n' → Matches (.run :: glob) text → Matches (.run :: glob) (c :: text)

/-- Moves the marks of a tail of the glob, and of the tails of that, over a character.
`before` says that a run ended here before the character, so that the tail has a mark as
well; `after` that the piece in front of the tail takes the character. -/
def step (c : Char) (before after : Bool) : Glob → List Bool → List Bool
  | [], _ => [after]
  | piece :: glob, marks =>
    let marked := before || marks.headD false
    match piece with
    | .run => (after || marked && c ≠ '\n') :: step c marked false glob marks.tail
    | .one => after :: step c false (marked && c ≠ '\n') glob marks.tail
    | .char d => after :: step c false (marked && c = d) glob marks.tail

/-- Whether a marked tail stands for the empty text: it may hold nothing but runs. -/
def atEnd : Glob → List Bool → Bool
  | [], marks => marks.headD false
  | piece :: glob, marks =>
    marks.headD false && (piece :: glob).all (· = .run) || atEnd glob marks.tail

/-- Whether a marked tail of the glob stands for the text. -/
def acceptsFrom (glob : Glob) : List Bool → List Char → Bool
  | marks, [] => atEnd glob marks
  | marks, c :: text => acceptsFrom glob (step c false false glob marks) text

/-- Whether the glob stands for the text. -/
def accepts (glob : Glob) (text : List Char) : Bool :=
  acceptsFrom glob [true] text

/-! ### What the marks mean -/

theorem matches_run_cons_iff {c : Char} {glob : Glob} {text : List Char} :
    Matches (.run :: glob) (c :: text) ↔
      Matches glob (c :: text) ∨ c ≠ '\n' ∧ Matches (.run :: glob) text := by
  constructor
  · rintro (_ | _ | _ | h | ⟨hc, h⟩)
    · exact .inl h
    · exact .inr ⟨hc, h⟩
  · rintro (h | ⟨hc, h⟩)
    · exact .stop h
    · exact .more hc h

theorem matches_one_cons_iff {c : Char} {glob : Glob} {text : List Char} :
    Matches (.one :: glob) (c :: text) ↔ c ≠ '\n' ∧ Matches glob text :=
  ⟨fun h => by cases h with | one hc h => exact ⟨hc, h⟩, fun ⟨hc, h⟩ => .one hc h⟩

theorem matches_char_cons_iff {c d : Char} {glob : Glob} {text : List Char} :
    Matches (.char d :: glob) (c :: text) ↔ c = d ∧ Matches glob text :=
  ⟨fun h => by cases h with | char h => exact ⟨rfl, h⟩, fun ⟨hc, h⟩ => hc ▸ .char h⟩

/-- A glob stands for the empty text if it holds nothing but runs. -/
theorem matches_nil_iff {glob : Glob} : Matches glob [] ↔ glob.all (· = .run) = true := by
  induction glob with
  | nil => exact ⟨fun _ => rfl, fun _ => .nil⟩
  | cons piece glob ih =>
    cases piece with
    | run =>
      rw [List.all_cons, Bool.and_eq_true, ← ih]
      exact ⟨fun h => by cases h with | stop h => exact ⟨by decide, h⟩, fun h => .stop h.2⟩
    | one => exact ⟨fun h => (nomatch h), fun h => by simp at h⟩
    | char d => exact ⟨fun h => (nomatch h), fun h => by simp at h⟩

/-- Whether a text is what one of the marked tails of a glob stands for. -/
def Marked : Glob → List Bool → List Char → Prop
  | [], marks, text => marks.headD false = true ∧ Matches [] text
  | piece :: glob, marks, text =>
    marks.headD false = true ∧ Matches (piece :: glob) text ∨ Marked glob marks.tail text

theorem atEnd_iff {glob : Glob} {marks : List Bool} :
    atEnd glob marks = true ↔ Marked glob marks [] := by
  induction glob generalizing marks with
  | nil => simp [atEnd, Marked, matches_nil_iff]
  | cons piece glob ih =>
    rw [atEnd, Marked, Bool.or_eq_true, Bool.and_eq_true, ← matches_nil_iff, ih]

theorem marked_step_iff {c : Char} {before after : Bool} {glob : Glob} {marks : List Bool}
    {text : List Char} :
    Marked glob (step c before after glob marks) text ↔
      after = true ∧ Matches glob text ∨ before = true ∧ Matches glob (c :: text) ∨
        Marked glob marks (c :: text) := by
  induction glob generalizing before after marks with
  | nil =>
    have : ¬ Matches [] (c :: text) := nofun
    simp [step, Marked, this]
  | cons piece glob ih =>
    cases piece <;>
      simp only [step, Marked, ih, List.headD_cons, List.tail_cons, Bool.or_eq_true,
        Bool.and_eq_true, decide_eq_true_eq, matches_run_cons_iff, matches_one_cons_iff,
        matches_char_cons_iff] <;>
      grind

theorem acceptsFrom_iff {glob : Glob} {marks : List Bool} {text : List Char} :
    acceptsFrom glob marks text = true ↔ Marked glob marks text := by
  induction text generalizing marks with
  | nil => exact atEnd_iff
  | cons c text ih => simp [acceptsFrom, ih, marked_step_iff]

theorem marked_nil {glob : Glob} {text : List Char} : ¬ Marked glob [] text := by
  induction glob with
  | nil => simp [Marked]
  | cons piece glob ih => simp [Marked, ih]

/-- **Going over a text once decides what a glob stands for.** -/
theorem accepts_iff {glob : Glob} {text : List Char} :
    accepts glob text = true ↔ Matches glob text := by
  cases glob with
  | nil => simp [accepts, acceptsFrom_iff, Marked]
  | cons piece glob => simp [accepts, acceptsFrom_iff, Marked, marked_nil]

end Glob

end ClassFile
