import ClassFile.Proofs.Positions

/-!
# Splitting arguments by position comes to the same as splitting them

The arguments of a method descriptor are found by position, each with two cuts of the text: one to
look for the semicolon of a class name, and one for the argument itself. Both are between
characters, for the same reason as in a signature, and the arguments are the same as those of
`ClassFile.Signature.arguments` (`ClassFile.Signature.argumentsByPosition_eq_some_arguments`).
-/

namespace ClassFile.Signature

variable {chars rest : List Char} {pos : Nat} {c : Char}

theorem lt_of_isPrimitiveArgument {c : Char} (h : isPrimitiveArgument c = true) :
    c.toNat < 128 := by
  have hsmall : "BCDFIJSZ".toList.all (·.toNat < 128) = true := by decide
  exact of_decide_eq_true (List.all_eq_true.1 hsmall c (List.contains_iff_mem.1 h))

/-! ### Splitting character by character -/

theorem splitArguments_brackets (reversed : List Char) (n : Nat) (rest : List Char) :
    splitArguments reversed false (List.replicate n '[' ++ rest) =
      splitArguments (List.replicate n '[' ++ reversed) false rest := by
  induction n generalizing reversed with
  | zero => rfl
  | succ n ih =>
    have hmarks : List.replicate n '[' ++ '[' :: reversed =
        List.replicate (n + 1) '[' ++ reversed := by
      rw [List.replicate_succ', List.append_assoc]
      rfl
    rw [← hmarks, List.replicate_succ, List.cons_append, splitArguments, if_neg (by simp),
      if_pos rfl, ih]

theorem splitArguments_name (reversed : List Char) {part : List Char} (hpart : ';' ∉ part)
    (rest : List Char) :
    splitArguments reversed true (part ++ ';' :: rest) = (do
      return String.ofList (reversed.reverse ++ part ++ [';']) ::
        (← splitArguments [] false rest)) := by
  induction part generalizing reversed with
  | nil =>
    rw [List.nil_append, splitArguments, if_pos rfl, List.reverse_cons, List.append_nil]
  | cons c part ih =>
    obtain ⟨hc, hpart⟩ := not_or.1 (mt List.mem_cons.2 hpart)
    rw [List.cons_append, splitArguments, if_neg (Ne.symm hc), ih _ hpart, List.reverse_cons,
      List.append_assoc reversed.reverse]
    rfl

theorem splitArguments_unterminated (reversed : List Char) {part : List Char}
    (hpart : ';' ∉ part) : splitArguments reversed true part = .error .unterminated := by
  induction part generalizing reversed with
  | nil => rfl
  | cons c part ih =>
    obtain ⟨hc, hpart⟩ := not_or.1 (mt List.mem_cons.2 hpart)
    rw [splitArguments, if_neg (Ne.symm hc), ih _ hpart]

/-! ### Splitting by position -/

namespace Chars

/-- Marks of arrays are passed over, up to a character that is none. -/
theorem skipMarks_spec (h : Before chars pos rest) :
    ∃ n tail, rest = List.replicate n '[' ++ tail ∧ tail.head? ≠ some '[' ∧
      skipMarks chars pos = pure (pos + n) ∧ Before chars (pos + n) tail := by
  induction rest generalizing pos with
  | nil =>
    refine ⟨0, [], rfl, nofun, ?_, h⟩
    rw [skipMarks, if_neg (by rw [h.byte?_nil]; exact nofun)]
    rfl
  | cons c rest ih =>
    by_cases hc : c = '['
    · subst hc
      obtain ⟨n, tail, rfl, hhead, hskip, hbefore⟩ := ih (h.next_of_lt (by decide))
      refine ⟨n + 1, tail, rfl, hhead, ?_, ?_⟩
      · rw [skipMarks, h.byte?_cons, if_pos (congrArg some (lead_self (by decide))),
          hskip, Nat.add_assoc, Nat.add_comm 1 n]
      · rwa [Nat.add_assoc, Nat.add_comm 1 n] at hbefore
    · refine ⟨0, c :: rest, rfl, fun h => hc (Option.some.inj h), ?_, h⟩
      rw [skipMarks, h.byte?_cons, if_neg (mt Option.some.inj (lead_ne (by decide) hc))]
      rfl

theorem isPrimitiveByte_lead (c : Char) : isPrimitiveByte (lead c) = isPrimitiveArgument c := by
  rw [isPrimitiveByte]
  rcases Nat.lt_or_ge c.toNat 128 with hc | hc
  · rw [ofUInt8_lead, leadByte, if_pos hc]
  · have hprimitive {d : Char} (hd : 128 ≤ d.toNat) : isPrimitiveArgument d = false :=
      Bool.eq_false_iff.2 fun h => Nat.not_lt.2 hd (lt_of_isPrimitiveArgument h)
    have hlead : 128 ≤ (Char.ofUInt8 (lead c)).toNat :=
      le_of_mem_utf8EncodeChar hc (lead_mem c)
    rw [hprimitive hc, hprimitive hlead]

theorem length_utf8_marks (n : Nat) : (utf8 (List.replicate n '[')).length = n := by
  induction n with
  | zero => rfl
  | succ n ih =>
    rw [List.replicate_succ, length_utf8_cons, ih, utf8Size_of_lt (by decide), Nat.add_comm]

/-- The splitting from a position on comes to the same as that of the rest of the text. -/
def SplitsAlike (chars : List Char) (before : List String) (pos : Nat) (rest : List Char) : Prop :=
  splitFrom chars before pos = Guarded.answer ((before ++ ·) <$> splitArguments [] false rest)

/-- An argument is cut out of the text, and the splitting goes on behind it. -/
theorem cut_eq {part : List Char} (before : List String) (h : Before chars pos (part ++ rest))
    (ih : ∀ before pos, Before chars pos rest → SplitsAlike chars before pos rest) :
    (Guarded.expect (slice? chars pos (pos + (utf8 part).length)) >>= fun cut =>
      splitFrom chars (before ++ [String.ofList cut]) (pos + (utf8 part).length)) =
    Guarded.answer ((before ++ ·) <$> do
      return String.ofList part :: (← splitArguments [] false rest)) := by
  rw [slice?_append h, Guarded.expect, pure_bind, ih _ _ h.append]
  cases splitArguments [] false rest with
  | error why => rfl
  | ok arguments =>
    change Guarded.answer (.ok (before ++ [String.ofList part] ++ arguments)) = _
    rw [List.append_assoc]
    rfl

/-- An argument that is a class, behind its marks: it ends with the next semicolon. -/
theorem cutName_eq {tail : List Char} {k : Nat} (before : List String)
    (h : Before chars pos (List.replicate k '[' ++ 'L' :: tail))
    (hname : Before chars (pos + k) ('L' :: tail))
    (ih : ∀ more before pos, more.length < tail.length → Before chars pos more →
      SplitsAlike chars before pos more) :
    (do
      match find? ';' (← Guarded.expect (slice? chars (pos + k) (utf8 chars).length)) with
      | none => throw .unterminated
      | some length =>
        let part ← Guarded.expect (slice? chars pos (pos + k + length + 1))
        splitFrom chars (before ++ [String.ofList part]) (pos + k + length + 1)) =
    Guarded.answer ((before ++ ·) <$> splitArguments ('L' :: List.replicate k '[') true tail) := by
  rw [slice?_rest hname, Guarded.expect, pure_bind]
  by_cases hmem : ';' ∈ tail
  · obtain ⟨part, more, rfl, hpart⟩ := List.eq_append_cons_of_mem hmem
    have hnone : ';' ∉ 'L' :: part := by simpa using hpart
    have hfind : find? ';' ('L' :: (part ++ ';' :: more)) = some (utf8 ('L' :: part)).length :=
      find?_append hnone more
    -- the part that is cut out begins with the marks and ends with the semicolon
    have hcut : pos + k + (utf8 ('L' :: part)).length + 1 =
        pos + (utf8 (List.replicate k '[' ++ 'L' :: part ++ [';'])).length := by
      rw [utf8_append, utf8_append, List.length_append, List.length_append, length_utf8_marks]
      change _ = pos + (k + (utf8 ('L' :: part)).length + 1)
      omega
    have htext : List.replicate k '[' ++ 'L' :: (part ++ ';' :: more) =
        List.replicate k '[' ++ 'L' :: part ++ [';'] ++ more := by
      simp only [List.append_assoc, List.cons_append, List.nil_append]
    have hshorter : more.length < (part ++ ';' :: more).length := by
      rw [List.length_append, List.length_cons]
      omega
    rw [htext] at h
    rw [hfind]
    dsimp only
    rw [hcut, splitArguments_name _ hpart, List.reverse_cons, List.reverse_replicate,
      List.append_assoc (List.replicate k '[') ['L']]
    exact cut_eq before h fun before pos h => ih more before pos hshorter h
  · rw [find?_of_not_mem (by simp [hmem]), splitArguments_unterminated _ hmem]
    rfl

/-- An argument of one letter, behind its marks. -/
theorem cutLetter_eq {tail : List Char} {k : Nat} (before : List String)
    (h : Before chars pos (List.replicate k '[' ++ c :: tail)) (hc : c.toNat < 128)
    (ih : ∀ before pos, Before chars pos tail → SplitsAlike chars before pos tail) :
    (do
      let part ← Guarded.expect (slice? chars pos (pos + k + 1))
      splitFrom chars (before ++ [String.ofList part]) (pos + k + 1)) =
    Guarded.answer ((before ++ ·) <$> do
      return String.ofList (c :: List.replicate k '[').reverse ::
        (← splitArguments [] false tail)) := by
  have hcut : pos + k + 1 = pos + (utf8 (List.replicate k '[' ++ [c])).length := by
    rw [utf8_append, List.length_append, length_utf8_marks, utf8_cons, utf8EncodeChar_of_lt hc]
    rfl
  have htext : List.replicate k '[' ++ c :: tail = List.replicate k '[' ++ [c] ++ tail := by
    rw [List.append_assoc]
    rfl
  rw [htext] at h
  rw [hcut, List.reverse_cons, List.reverse_replicate]
  exact cut_eq before h ih

theorem splitFrom_eq (n : Nat) (hlength : rest.length < n) (before : List String)
    (h : Before chars pos rest) : SplitsAlike chars before pos rest := by
  induction n generalizing before pos rest with
  | zero => exact absurd hlength (Nat.not_lt_zero _)
  | succ n ih =>
    obtain ⟨k, tail, rfl, hhead, hskip, hbefore⟩ := skipMarks_spec h
    rw [SplitsAlike, splitFrom, hskip, pure_bind, splitArguments_brackets, List.append_nil]
    cases tail with
    | nil =>
      rw [hbefore.byte?_nil]
      cases k <;> rfl
    | cons c tail =>
      rw [hbefore.byte?_cons]
      dsimp only
      rw [List.length_append, List.length_cons] at hlength
      have hbracket : c ≠ '[' := fun h => hhead (congrArg some h)
      rw [splitArguments]
      -- a parenthesis ends the arguments only where one of them would begin
      by_cases hend : c = ')' ∧ List.replicate k '[' = []
      · obtain ⟨rfl, hk⟩ := hend
        have hk : k = 0 := by simpa using hk
        subst hk
        rw [if_pos ⟨lead_self (by decide), rfl⟩, if_pos ⟨rfl, rfl⟩]
        change _ = Guarded.answer (.ok (before ++ []))
        rw [List.append_nil]
        rfl
      have hend' : ¬ (lead c = ')'.toUInt8 ∧ pos + k = pos) := by
        rintro ⟨hc, hk⟩
        have hk : k = 0 := by omega
        subst hk
        exact hend ⟨(lead_eq_iff (by decide)).1 hc, rfl⟩
      rw [if_neg hend, if_neg hend', if_neg hbracket]
      by_cases hname : c = 'L'
      · subst hname
        rw [if_pos (lead_self (by decide)), if_pos rfl]
        exact cutName_eq before h hbefore fun more before pos hmore h => ih (by omega) before h
      rw [if_neg (lead_ne (by decide) hname), if_neg hname, isPrimitiveByte_lead]
      by_cases hprimitive : isPrimitiveArgument c = true
      · rw [if_pos hprimitive, if_pos hprimitive]
        exact cutLetter_eq before h (lt_of_isPrimitiveArgument hprimitive) fun before pos h =>
          ih (by omega) before h
      · rw [if_neg hprimitive, if_neg hprimitive]
        rfl

theorem split_eq (text : String) :
    split text.toList = Guarded.answer (match text.toList with
      | '(' :: rest => splitArguments [] false rest
      | _ => .error .notOpened) := by
  have hstart := Before.start text.toList
  rw [split]
  cases hchars : text.toList with
  | nil =>
    rw [hchars] at hstart
    rw [if_neg (by rw [hstart.byte?_nil]; exact nofun)]
    rfl
  | cons c rest =>
    rw [hchars] at hstart
    rw [hstart.byte?_cons]
    by_cases hc : c = '('
    · subst hc
      rw [if_pos (congrArg some (lead_self (by decide))),
        splitFrom_eq _ (Nat.lt_succ_self _) [] (hstart.next_of_lt (by decide))]
      change Guarded.answer (_ <$> splitArguments [] false rest) =
        Guarded.answer (splitArguments [] false rest)
      cases splitArguments [] false rest with
      | error why => rfl
      | ok arguments => rfl
    · rw [if_neg (mt Option.some.inj (lead_ne (by decide) hc))]
      split
      · rename_i heq
        exact absurd (List.cons.inj heq).1 hc
      · rfl

end Chars

/-- **Splitting by position comes to the same**, for every text, and does not crash. -/
theorem argumentsByPosition_eq_some_arguments (text : String) :
    argumentsByPosition text = some (arguments text) := by
  rw [argumentsByPosition, Chars.split_eq]
  rfl

end ClassFile.Signature
