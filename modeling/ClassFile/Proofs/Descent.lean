import ClassFile.Proofs.Positions

/-!
# Reading a signature by position comes to the same as scanning it

The descent over the bytes of a text and the machine that scans its characters agree on
every text: they find the same classes, in the same order, and the same fault. In
particular the descent comes to an end, and it never cuts the text inside a character
(`ClassFile.Signature.scanByPosition_eq_some_scan`).

The two are compared where the descent stands between characters. A function of the descent
*follows* the machine (`ClassFile.Signature.Follows`) if both fail with the same fault, or
the machine gets from its state to one in which it stands where the function ended. Inside a
character, the descent only goes on to the next byte, because no byte of a character beyond
the first 128 looks like one of those (`ClassFile.Signature.mem_utf8EncodeChar_iff`).

The functions call each other, so they are all shown to follow the machine together, by
induction on the length of the text that is left.
-/

namespace ClassFile.Signature

variable {chars : List Char} {pos : Nat} {c : Char} {rest : List Char}

/-! ### Following the machine -/

section Follows

variable {α β : Type} {s t : Scanner} {tail : List Char} {Q : α → Scanner → List Char → Prop}

/-- What the machine finds in the rest of a text, the last class first, and what is wrong
with the text. -/
def outcome (s : Scanner) (rest : List Char) : List String × Option DescriptorFault :=
  ((s.run rest).1.found, (s.run rest).2)

/-- The machine consumes a character, and then comes to what it comes to with the rest. -/
theorem outcome_of_step (hstep : s.step c = .ok t) : outcome s (c :: rest) = outcome t rest := by
  rw [outcome, outcome, Scanner.run, hstep]

/-- A character at which the machine fails decides the outcome: what it has found so far, and the
fault. -/
theorem outcome_of_error {why : DescriptorFault} (hstep : s.step c = .error why) :
    outcome s (c :: rest) = (s.found, some why) := by
  rw [outcome, Scanner.run, hstep]

/-- If two states do the same at the next character and have found the same, then it is the same to
start in either of them. -/
theorem outcome_congr (hstep : s.step c = t.step c) (hfound : s.found = t.found) :
    outcome s (c :: rest) = outcome t (c :: rest) := by
  cases ht : t.step c with
  | ok next => rw [outcome_of_step (hstep.trans ht), outcome_of_step ht]
  | error why => rw [outcome_of_error (hstep.trans ht), outcome_of_error ht, hfound]

/-- Both fail with the same fault, or the machine gets to where the step ended, and both have
found the same classes. There `Q` holds of the value of the step, the state of the machine
and the rest of the text. -/
def Follows (s : Scanner) (rest : List Char) (Q : α → Scanner → List Char → Prop)
    (m : Descent α) : Prop :=
  (∃ why found, m s.found = some (.error why, found) ∧ outcome s rest = (found, some why)) ∨
  ∃ value t tail, m s.found = some (.ok value, t.found) ∧ outcome s rest = outcome t tail ∧
    Q value t tail

namespace Follows

theorem pure {value : α} (h : Q value s rest) : Follows s rest Q (Pure.pure value) :=
  .inr ⟨value, s, rest, rfl, rfl, h⟩

/-- A routine that fails follows the machine if the machine fails as well, for the same reason, and
had found as much. -/
theorem throw {why : DescriptorFault} (h : outcome s rest = (s.found, some why)) :
    Follows s rest Q (MonadExcept.throw why) :=
  .inl ⟨why, s.found, rfl, h⟩

/-- Two routines follow the machine one after the other: the second begins where the first one, and
the machine with it, has come to. -/
theorem bind {R : β → Scanner → List Char → Prop} {m : Descent β} {f : β → Descent α}
    (hm : Follows s rest R m)
    (hf : ∀ value t tail, R value t tail → Follows t tail Q (f value)) :
    Follows s rest Q (m >>= f) := by
  rcases hm with ⟨why, found, hrun, hlast⟩ | ⟨value, t, tail, hrun, hnext, hR⟩
  · exact .inl ⟨why, found, Guarded.bind_of_error hrun, hlast⟩
  rcases hf value t tail hR with ⟨why, found, hrun', hlast⟩ | ⟨result, u, more, hrun', hlast, hQ⟩
  · exact .inl ⟨why, found, (Guarded.bind_of_ok hrun).trans hrun', hnext.trans hlast⟩
  · exact .inr ⟨result, u, more, (Guarded.bind_of_ok hrun).trans hrun', hnext.trans hlast, hQ⟩

theorem mono {R : α → Scanner → List Char → Prop} {m : Descent α} (h : Follows s rest R m)
    (hR : ∀ value t tail, R value t tail → Q value t tail) : Follows s rest Q m := by
  rcases h with hfault | ⟨value, t, tail, hrun, hnext, h⟩
  · exact .inl hfault
  · exact .inr ⟨value, t, tail, hrun, hnext, hR value t tail h⟩

/-- A routine may follow from a state that the machine comes to without anything being found on the
way, as it does at brackets and identifiers. -/
theorem of_outcome {m : Descent α} (houtcome : outcome s rest = outcome t tail)
    (hfound : t.found = s.found) (h : Follows t tail Q m) : Follows s rest Q m := by
  rw [Follows, hfound, ← houtcome] at h
  exact h

theorem of_step {m : Descent α} (hstep : s.step c = .ok t) (hfound : t.found = s.found)
    (h : Follows t rest Q m) : Follows s (c :: rest) Q m :=
  h.of_outcome (outcome_of_step hstep) hfound

end Follows

end Follows

/-! ### The loops of the descent -/

namespace Chars

variable {s : Scanner}

/-- Behind the last character there is no byte to be read, and the descent fails as the machine does
there. -/
theorem byte_nil (h : Before chars pos []) : byte chars pos = throw .ended := by
  rw [byte, h.byte?_nil]

/-- Where a character begins the descent sees its first byte. For a character beyond the ASCII range
it is a byte that stands for nothing. -/
theorem byte_cons (h : Before chars pos (c :: rest)) : byte chars pos = pure (lead c) := by
  rw [byte, h.byte?_cons]

/-- A piece that begins and ends where characters begin can be cut out of the text. This is why no
cut crashes. -/
theorem slice_append {part : List Char} (h : Before chars pos (part ++ rest)) :
    slice chars pos (pos + (utf8 part).length) = pure part := by
  rw [slice, slice?_append h]
  rfl

theorem step_type (h : s.mode = .type) (c : Char) : s.step c = s.beginType c := by
  rw [Scanner.step, h]

theorem with_mode {mode : Mode} (h : s.mode = mode) : { s with mode := mode } = s := by
  rw [← h]

theorem outcome_nil (h : s.atEnd = some .ended) : outcome s [] = (s.found, some .ended) := by
  rw [outcome, Scanner.run, h]

/-- Brackets in front of a type are skipped by both: the machine stays in its state at each of them,
and the descent comes to the first other character. -/
theorem skipBrackets_follows (hmode : s.mode = .type) (h : Before chars pos rest) :
    Follows s rest (fun found t tail => t = s ∧ ∃ c more, tail = c :: more ∧ c ≠ '[' ∧
      found.2 = lead c ∧ Before chars found.1 tail ∧ tail.length ≤ rest.length)
      (skipBrackets chars pos) := by
  induction rest generalizing pos with
  | nil =>
    rw [skipBrackets, byte_nil h]
    exact .throw (outcome_nil (by rw [Scanner.atEnd, hmode]))
  | cons c rest ih =>
    rw [skipBrackets, byte_cons h, pure_bind]
    by_cases hc : c = '['
    · subst hc
      rw [if_pos (lead_self (by decide))]
      have hstep : s.step '[' = .ok s := by
        rw [step_type hmode, Scanner.beginType, if_pos rfl, with_mode hmode]
      refine .of_step hstep rfl ((ih (h.next_of_lt (by decide))).mono ?_)
      rintro found t tail ⟨ht, d, more, htail, hd, hlead, hbefore, hle⟩
      exact ⟨ht, d, more, htail, hd, hlead, hbefore, Nat.le_succ_of_le hle⟩
    · rw [if_neg (lead_ne (by decide) hc)]
      exact .pure ⟨rfl, c, rest, rfl, hc, rfl, h, Nat.le_refl _⟩

/-- The name of a type variable is skipped up to its semicolon. The machine does not change its
state there, for nothing is found in it. -/
theorem skipVariable_follows (hmode : s.mode = .variable) (h : Before chars pos rest) :
    Follows s rest (fun stop t tail => t = s ∧ ∃ more, tail = ';' :: more ∧
      Before chars stop tail ∧ tail.length ≤ rest.length) (skipVariable chars pos) := by
  induction rest generalizing pos with
  | nil =>
    rw [skipVariable, byte_nil h]
    exact .throw (outcome_nil (by rw [Scanner.atEnd, hmode]))
  | cons c rest ih =>
    by_cases hc : c = ';'
    · subst hc
      rw [skipVariable, byte_cons h, pure_bind, if_pos (lead_self (by decide))]
      exact .pure ⟨rfl, rest, rfl, h, Nat.le_refl _⟩
    · have hskip : skipVariable chars pos = skipVariable chars (pos + c.utf8Size) := by
        refine h.skip (P := (· ≠ ';'.toUInt8)) (fun pos b hb hne => ?_) fun b hb => ?_
        · rw [skipVariable.eq_1 chars pos, byte, hb]
          exact (pure_bind b _).trans (if_neg hne)
        · rintro rfl
          exact hc ((mem_utf8EncodeChar_iff (by decide)).1 hb)
      have hstep : s.step c = .ok s := by
        rw [Scanner.step, hmode]
        exact congrArg Except.ok (if_neg hc)
      rw [hskip]
      refine .of_step hstep rfl ((ih h.next).mono ?_)
      rintro stop t tail ⟨ht, more, htail, hbefore, hle⟩
      exact ⟨ht, more, htail, hbefore, Nat.le_succ_of_le hle⟩

/-! ### Types, lists and names -/

/-- The character that ends the list in which the machine stands. -/
inductive Closing : Scanner → Option Char → Prop
  | bracket {s : Scanner} {frame : Frame} {stack : List Frame} :
    s.stack = frame :: stack → Closing s (some '>')
  | parenthesis {s : Scanner} : s.stack = [] → s.ground = .arguments → Closing s (some ')')
  | text {s : Scanner} : s.stack = [] → s.ground = .results → Closing s none

/-- A type has ended. -/
def AfterType (chars : List Char) (s : Scanner) (rest : List Char) (stop : Nat) (t : Scanner)
    (tail : List Char) : Prop :=
  Before chars stop tail ∧ tail.length < rest.length ∧
    t = { s.completed with found := t.found }

/-- A list is about to end. -/
def AtClosing (chars : List Char) (s : Scanner) (rest : List Char) (closing : Option Char)
    (stop : Nat) (t : Scanner) (tail : List Char) : Prop :=
  Before chars stop tail ∧ tail.length ≤ rest.length ∧ tail.head? = closing ∧
    t = { s with mode := .item, found := t.found }

/-- A class name is about to end. -/
def AtSemicolon (chars : List Char) (s : Scanner) (rest : List Char)
    (found : Nat × List Char) (t : Scanner) (tail : List Char) : Prop :=
  Before chars found.1 tail ∧ tail.length ≤ rest.length ∧ tail.head? = some ';' ∧
    t = { s with mode := .name found.2.reverse, found := t.found }

/-- Lists follow the machine on texts of less than `n` characters. -/
def ReferencesFollow (chars : List Char) (n : Nat) : Prop :=
  ∀ {s : Scanner} {closing : Option Char} {pos : Nat} {rest : List Char}, rest.length < n →
    Before chars pos rest → s.mode = .item → Closing s closing →
    Follows s rest (AtClosing chars s rest closing)
      (references chars s.nesting (closing.map Char.toUInt8) pos)

/-- Class names follow the machine on texts of less than `n` characters. -/
def ClassNameFollows (chars : List Char) (n : Nat) : Prop :=
  ∀ {s : Scanner} {known part : List Char} {start : Nat} {rest : List Char}, rest.length < n →
    Before chars start (part ++ rest) → s.mode = .name (known ++ part).reverse →
    Follows s rest (AtSemicolon chars s rest)
      (className chars s.nesting known start (start + (utf8 part).length))

theorem beginType_mode (s : Scanner) (mode : Mode) (c : Char) :
    Scanner.beginType { s with mode := mode } c = s.beginType c := rfl

/-- Type arguments open a frame on the stack of the machine, and the descent calls itself with a
nesting that is one more. Both refuse to go deeper at the same nesting. -/
theorem typeArguments_follows {n : Nat} (ih : ReferencesFollow chars n) {frame : Frame}
    (hlength : rest.length < n) (h : Before chars pos ('<' :: rest))
    (hstep : s.step '<' = s.enter frame) :
    Follows s ('<' :: rest)
      (AtClosing chars { s with stack := frame :: s.stack } rest (some '>'))
      (typeArguments chars s.nesting (pos + 1)) := by
  rw [typeArguments]
  by_cases hdeep : s.nesting = nestingLimit
  · rw [if_pos hdeep]
    exact .throw (outcome_of_error (hstep.trans (if_pos hdeep)))
  · rw [if_neg hdeep]
    refine .of_step (hstep.trans (if_neg hdeep)) rfl ?_
    exact ih hlength (h.next_of_lt (by decide)) rfl (.bracket rfl)

/-- Type arguments that stand where a type does. The grammar has no such type, but both readers take
the list for one. -/
theorem bareArguments_follow {n : Nat} (hlists : ReferencesFollow chars n)
    (hlength : rest.length < n) (hmode : s.mode = .type) (h : Before chars pos ('<' :: rest)) :
    Follows s ('<' :: rest) (AfterType chars s ('<' :: rest)) (do
      let stop ← typeArguments chars s.nesting (pos + 1)
      return stop + 1) := by
  have hstep : s.step '<' = s.enter .bare := step_type hmode '<'
  refine (typeArguments_follows hlists hlength h hstep).bind ?_
  rintro stop t tail ⟨hstop, htail, hhead, ht⟩
  obtain ⟨tail, rfl⟩ := List.head?_eq_some_iff.1 hhead
  have hclose : t.step '>' = .ok { s.completed with found := t.found } := by
    rw [ht]
    rfl
  refine .of_step hclose rfl (.pure ⟨hstop.next_of_lt (by decide), ?_, rfl⟩)
  rw [List.length_cons] at htail ⊢
  omega

/-- A type variable is skipped, and is a whole type. It names no class. -/
theorem variable_follows (hmode : s.mode = .type) (h : Before chars pos ('T' :: rest)) :
    Follows s ('T' :: rest) (AfterType chars s ('T' :: rest)) (do
      return (← skipVariable chars (pos + 1)) + 1) := by
  have hstep : s.step 'T' = .ok { s with mode := .variable } := step_type hmode 'T'
  refine .of_step hstep rfl ?_
  refine (skipVariable_follows rfl (h.next_of_lt (by decide))).bind ?_
  rintro stop t tail ⟨rfl, tail, rfl, hstop, htail⟩
  refine .of_step rfl rfl (.pure ⟨hstop.next_of_lt (by decide), ?_, rfl⟩)
  rw [List.length_cons] at htail ⊢
  omega

/-- A class type. The class is found at the semicolon, unless it has no name. -/
theorem classType_follows {n : Nat} (hnames : ClassNameFollows chars n)
    (hlength : rest.length < n) (hmode : s.mode = .type) (h : Before chars pos ('L' :: rest)) :
    Follows s ('L' :: rest) (AfterType chars s ('L' :: rest)) (do
      let (pos, name) ← className chars s.nesting [] (pos + 1) (pos + 1)
      if name.isEmpty then throw .noClassName
      modify (String.ofList name :: ·)
      return pos + 1) := by
  have hstep : s.step 'L' = .ok { s with mode := .name [] } := step_type hmode 'L'
  refine .of_step hstep rfl ?_
  have hfront : Before chars (pos + 1) ([] ++ rest) := h.next_of_lt (by decide)
  refine Follows.bind (hnames hlength hfront rfl) ?_
  rintro ⟨stop, name⟩ t tail ⟨hstop, htail, hhead, ht⟩
  obtain ⟨tail, rfl⟩ := List.head?_eq_some_iff.1 hhead
  dsimp only at hstop ht ⊢
  by_cases hempty : name = []
  · subst hempty
    have hsemicolon : t.step ';' = .error .noClassName := by
      rw [ht]
      rfl
    exact .bind (.throw (outcome_of_error hsemicolon)) fun _ _ _ h => h
  · let after := Scanner.completed { s with found := String.ofList name :: t.found }
    have hsemicolon : t.step ';' = .ok after := by
      rw [ht]
      refine (if_neg (mt List.reverse_eq_nil_iff.1 hempty)).trans ?_
      rw [List.reverse_reverse]
      rfl
    rw [if_neg (mt List.isEmpty_iff.1 hempty)]
    -- the step changes what was found, so it is taken as a whole
    refine .inr ⟨stop + 1, after, tail, rfl, ?_, hstop.next_of_lt (by decide), ?_, rfl⟩
    · exact outcome_of_step hsemicolon
    · rw [List.length_cons] at htail ⊢
      omega

/-- A type of one letter, or the fault of a letter that is none. The letter stands for itself, and
nothing is found. -/
theorem simpleType_follows (hmode : s.mode = .type) (h : Before chars pos (c :: rest))
    (hstep : s.beginType c =
      if isSimple c then .ok s.completed else .error (.unexpected (leadByte c))) :
    Follows s (c :: rest) (AfterType chars s (c :: rest))
      (if isSimpleByte (lead c) then pure (pos + 1)
        else throw (.unexpected (Char.ofUInt8 (lead c)))) := by
  rw [← step_type hmode] at hstep
  rw [isSimpleByte_lead]
  by_cases hsimple : isSimple c = true
  · rw [if_pos hsimple] at hstep ⊢
    exact .of_step hstep rfl
      (.pure ⟨h.next_of_lt (lt_of_isSimple hsimple), Nat.lt_succ_self _, rfl⟩)
  · rw [if_neg hsimple] at hstep ⊢
    rw [ofUInt8_lead]
    exact .throw (outcome_of_error hstep)

/-- **One type.** Which kind it is depends on its first character behind the brackets, and for each
kind there is a routine that follows the machine. -/
theorem reference_follows {n : Nat} (hlists : ReferencesFollow chars n)
    (hnames : ClassNameFollows chars n) (hlength : rest.length ≤ n) (hmode : s.mode = .type)
    (h : Before chars pos rest) :
    Follows s rest (AfterType chars s rest) (reference chars s.nesting pos) := by
  rw [reference]
  refine (skipBrackets_follows hmode h).bind ?_
  rintro ⟨pos, b⟩ t tail ⟨rfl, c, more, rfl, hbracket, hlead, hbefore, hle⟩
  dsimp only at hlead hbefore ⊢
  subst hlead
  refine Follows.mono (R := AfterType chars t (c :: more)) ?_ fun _ _ _ h =>
    ⟨h.1, Nat.lt_of_lt_of_le h.2.1 hle, h.2.2⟩
  have hmore : more.length < n := Nat.le_trans hle hlength
  by_cases hopen : c = '<'
  · subst hopen
    rw [if_pos (lead_self (by decide))]
    exact bareArguments_follow hlists hmore hmode hbefore
  rw [if_neg (lead_ne (by decide) hopen)]
  by_cases hvariable : c = 'T'
  · subst hvariable
    rw [if_pos (lead_self (by decide))]
    exact variable_follows hmode hbefore
  rw [if_neg (lead_ne (by decide) hvariable)]
  by_cases hname : c = 'L'
  · subst hname
    rw [if_pos (lead_self (by decide))]
    exact classType_follows hnames hmore hmode hbefore
  rw [if_neg (lead_ne (by decide) hname)]
  refine simpleType_follows hmode hbefore ?_
  rw [Scanner.beginType, if_neg hbracket, if_neg hopen, if_neg hvariable, if_neg hname]

section ClassName

variable {n : Nat} {known part : List Char} {start : Nat}

/-- In a name every character but four belongs to the name; the semicolon ends it, and a name
without characters is a fault. -/
theorem step_name {reversed : List Char} (hmode : s.mode = .name reversed) (c : Char) :
    s.step c =
      if c = ';' then
        if reversed = [] then .error .noClassName
        else .ok (Scanner.completed { s with found := String.ofList reversed.reverse :: s.found })
      else if c = '<' then s.enter (.named reversed)
      else .ok { s with mode := .name ((if c = '.' then '$' else c) :: reversed) } := by
  rw [Scanner.step, hmode]

/-- A name goes on behind type arguments: what was read before them is known, and a new part begins
behind the bracket that closes them. -/
theorem className_arguments (hlists : ReferencesFollow chars n) (hnames : ClassNameFollows chars n)
    (hlength : rest.length < n) (hstart : Before chars start (part ++ '<' :: rest))
    (hmode : s.mode = .name (known ++ part).reverse) :
    Follows s ('<' :: rest) (AtSemicolon chars s ('<' :: rest))
      (className chars s.nesting known start (start + (utf8 part).length)) := by
  have hpos := hstart.append
  have hend : lead '<' ≠ ';'.toUInt8 := lead_ne (by decide) (by decide)
  rw [className, byte_cons hpos, pure_bind, if_neg hend, if_pos (lead_self (by decide)),
    slice_append hstart, pure_bind]
  have hstep : s.step '<' = s.enter (.named (known ++ part).reverse) := step_name hmode '<'
  refine (typeArguments_follows hlists hlength hpos hstep).bind ?_
  rintro stop t tail ⟨hstop, htail, hhead, ht⟩
  obtain ⟨tail, rfl⟩ := List.head?_eq_some_iff.1 hhead
  have hclose : t.step '>' =
      .ok { s with mode := .name (known ++ part).reverse, found := t.found } := by
    rw [ht]
    rfl
  refine .of_step hclose rfl ?_
  have hnext : Before chars (stop + 1) ([] ++ tail) := hstop.next_of_lt (by decide)
  rw [List.length_cons] at htail
  refine (hnames (by omega) hnext (by rw [List.append_nil])).mono ?_
  rintro found u more ⟨hbefore, hmore, hhead, hu⟩
  exact ⟨hbefore, by rw [List.length_cons]; omega, hhead, hu⟩

/-- A dot goes into the name as a dollar sign, and a new part begins behind it. So the name of an
inner class is put together from parts of the text. -/
theorem className_dot (hnames : ClassNameFollows chars n) (hlength : rest.length < n)
    (hstart : Before chars start (part ++ '.' :: rest))
    (hmode : s.mode = .name (known ++ part).reverse) :
    Follows s ('.' :: rest) (AtSemicolon chars s ('.' :: rest))
      (className chars s.nesting known start (start + (utf8 part).length)) := by
  have hpos := hstart.append
  have hend : lead '.' ≠ ';'.toUInt8 := lead_ne (by decide) (by decide)
  have hopen : lead '.' ≠ '<'.toUInt8 := lead_ne (by decide) (by decide)
  rw [className, byte_cons hpos, pure_bind, if_neg hend, if_neg hopen,
    if_pos (lead_self (by decide)), slice_append hstart, pure_bind]
  have hstep : s.step '.' = .ok { s with mode := .name ('$' :: (known ++ part).reverse) } :=
    step_name hmode '.'
  refine .of_step hstep rfl ?_
  have hnext : Before chars (start + (utf8 part).length + 1) ([] ++ rest) :=
    hpos.next_of_lt (by decide)
  have hname : Mode.name ('$' :: (known ++ part).reverse) =
      .name (known ++ part ++ ['$'] ++ []).reverse := by simp
  refine (hnames hlength hnext hname).mono ?_
  rintro found u more ⟨hbefore, hmore, hhead, hu⟩
  exact ⟨hbefore, Nat.le_succ_of_le hmore, hhead, hu⟩

/-- The descent goes on byte by byte past any other character. -/
theorem className_skip {depth : Nat} (h : Before chars pos (c :: rest)) (hend : c ≠ ';')
    (hopen : c ≠ '<') (hdot : c ≠ '.') :
    className chars depth known start pos =
      className chars depth known start (pos + c.utf8Size) := by
  refine h.skip (P := fun b => b ≠ ';'.toUInt8 ∧ b ≠ '<'.toUInt8 ∧ b ≠ '.'.toUInt8)
    (fun pos b hb hne => ?_) fun b hb => ?_
  · rw [className.eq_1 chars depth known start pos, byte, hb]
    refine (pure_bind b _).trans ?_
    rw [if_neg hne.1, if_neg hne.2.1, if_neg hne.2.2]
  · exact ⟨ne_of_mem_utf8EncodeChar (by decide) hend hb,
      ne_of_mem_utf8EncodeChar (by decide) hopen hb,
      ne_of_mem_utf8EncodeChar (by decide) hdot hb⟩

/-- Any other character belongs to the part that is being read. The bytes inside a character beyond
the ASCII range are none of those at which the descent stops. -/
theorem className_letter (hnames : ClassNameFollows chars n) (hlength : rest.length < n)
    (hstart : Before chars start (part ++ c :: rest))
    (hmode : s.mode = .name (known ++ part).reverse) (hend : c ≠ ';') (hopen : c ≠ '<')
    (hdot : c ≠ '.') :
    Follows s (c :: rest) (AtSemicolon chars s (c :: rest))
      (className chars s.nesting known start (start + (utf8 part).length)) := by
  have hstep : s.step c = .ok { s with mode := .name (c :: (known ++ part).reverse) } := by
    rw [step_name hmode, if_neg hend, if_neg hopen, if_neg hdot]
  have hsize : start + (utf8 part).length + c.utf8Size =
      start + (utf8 (part ++ [c])).length := by
    have hnil : (utf8 []).length = 0 := rfl
    rw [utf8_append, List.length_append, length_utf8_cons]
    omega
  -- the character belongs to the part from `start` on
  have hnext : Before chars start (part ++ [c] ++ rest) := by
    rw [List.append_assoc]
    exact hstart
  have hname : Mode.name (c :: (known ++ part).reverse) =
      .name (known ++ (part ++ [c])).reverse := by simp
  rw [className_skip hstart.append hend hopen hdot, hsize]
  refine .of_step hstep rfl ((hnames hlength hnext hname).mono ?_)
  rintro found u more ⟨hbefore, hmore, hhead, hu⟩
  exact ⟨hbefore, Nat.le_succ_of_le hmore, hhead, hu⟩

/-- **A class name** is followed up to its semicolon, by what its next character is. -/
theorem className_follows (hlists : ReferencesFollow chars n) (hnames : ClassNameFollows chars n) :
    ClassNameFollows chars (n + 1) := by
  intro s known part start rest hlength hstart hmode
  cases rest with
  | nil =>
    rw [className, byte_nil hstart.append]
    exact .throw (outcome_nil (by rw [Scanner.atEnd, hmode]))
  | cons c rest =>
    have hrest : rest.length < n := Nat.lt_of_succ_lt_succ hlength
    by_cases hend : c = ';'
    · subst hend
      rw [className, byte_cons hstart.append, pure_bind, if_pos (lead_self (by decide)),
        slice_append hstart, pure_bind]
      exact .pure ⟨hstart.append, Nat.le_refl _, rfl, (with_mode hmode).symm⟩
    by_cases hopen : c = '<'
    · subst hopen
      exact className_arguments hlists hnames hrest hstart hmode
    by_cases hdot : c = '.'
    · subst hdot
      exact className_dot hnames hrest hstart hmode
    · exact className_letter hnames hrest hstart hmode hend hopen hdot

end ClassName

/-- The characters that close a list are plain ones, so a byte of the text that is equal to one of
them is that character. -/
theorem Closing.lt {closing : Option Char} (h : Closing s closing) :
    ∀ c ∈ closing, c.toNat < 128 := by
  cases h with
  | bracket | parenthesis =>
    rintro c ⟨⟩
    decide
  | text => exact fun c hc => nomatch hc

theorem Closing.atEnd {c : Char} (h : Closing s (some c)) (hmode : s.mode = .item) :
    s.atEnd = some (.missing c) := by
  rw [Scanner.atEnd, hmode]
  cases h with
  | bracket hstack => simp only [hstack]
  | parenthesis hstack hground => simp only [hstack, hground]

theorem Closing.atEnd_none (h : Closing s none) (hmode : s.mode = .item) : s.atEnd = none := by
  rw [Scanner.atEnd, hmode]
  cases h with
  | text hstack hground => simp only [hstack, hground]

theorem Closing.afterType {closing : Option Char} (h : Closing s closing) :
    s.afterType = .item := by
  rw [Scanner.afterType]
  cases h with
  | bracket hstack => simp only [hstack]
  | parenthesis hstack hground => simp only [hstack, hground]
  | text hstack hground => simp only [hstack, hground]

theorem Closing.congr {closing : Option Char} {t : Scanner} (h : Closing s closing)
    (hstack : t.stack = s.stack) (hground : t.ground = s.ground) : Closing t closing := by
  cases h with
  | bracket h => exact .bracket (hstack.trans h)
  | parenthesis h hg => exact .parenthesis (hstack.trans h) (hground.trans hg)
  | text h hg => exact .text (hstack.trans h) (hground.trans hg)

/-- A character that does not close the list begins a type, whatever the list is. -/
theorem Closing.step {closing : Option Char} (h : Closing s closing) (hmode : s.mode = .item)
    {c : Char} (hc : closing ≠ some c) : s.step c = s.beginType c := by
  rw [Scanner.step, hmode]
  change s.item c = s.beginType c
  rw [Scanner.item]
  cases h with
  | @bracket frame stack hstack =>
    have hc : c ≠ '>' := fun h => hc (h ▸ rfl)
    cases frame <;> simp only [hstack, if_neg hc]
  | parenthesis hstack hground =>
    have hc : c ≠ ')' := fun h => hc (h ▸ rfl)
    simp only [hstack, hground, if_neg hc]
  | text hstack hground => simp only [hstack, hground]

theorem Closing.lead_eq_iff {closing : Option Char} (h : Closing s closing) (c : Char) :
    some (lead c) = closing.map Char.toUInt8 ↔ closing = some c := by
  cases closing with
  | none => exact iff_of_false nofun nofun
  | some d =>
    rw [Option.map_some, Option.some_inj, Option.some_inj, Signature.lead_eq_iff (h.lt d rfl)]
    exact eq_comm

/-- At the end of the text a list is not complete, unless nothing needs to close it: then it is a
list of results. -/
theorem references_ended {closing : Option Char} (h : Before chars pos []) (hmode : s.mode = .item)
    (hclosing : Closing s closing) :
    Follows s [] (AtClosing chars s [] closing)
      (references chars s.nesting (closing.map Char.toUInt8) pos) := by
  rw [references.eq_def, h.byte?_nil]
  cases closing with
  | none => exact .pure ⟨h, Nat.le_refl _, rfl, (with_mode hmode).symm⟩
  | some c =>
    have hc : Char.ofUInt8 c.toUInt8 = c := by
      rw [← lead_self (hclosing.lt c rfl), ofUInt8_lead, leadByte, if_pos (hclosing.lt c rfl)]
    refine .throw ?_
    rw [outcome, Scanner.run, hclosing.atEnd hmode, hc]

/-- **A list of types** is followed up to what closes it. Each type makes the rest of the text
shorter. -/
theorem references_follow {n : Nat} (hlists : ReferencesFollow chars n)
    (hnames : ClassNameFollows chars n) : ReferencesFollow chars (n + 1) := by
  intro s closing pos rest hlength hpos hmode hclosing
  cases rest with
  | nil => exact references_ended hpos hmode hclosing
  | cons c rest =>
    rw [references.eq_def, hpos.byte?_cons]
    dsimp only
    by_cases hend : closing = some c
    · rw [if_pos ((hclosing.lead_eq_iff c).2 hend)]
      exact .pure ⟨hpos, Nat.le_refl _, hend.symm, (with_mode hmode).symm⟩
    · rw [if_neg (mt (hclosing.lead_eq_iff c).1 hend)]
      -- a type of the list begins as a type does
      have htype : Scanner.step { s with mode := .type } c = s.beginType c :=
        (step_type rfl c).trans (beginType_mode s .type c)
      have hstep := (hclosing.step hmode hend).trans htype.symm
      refine .of_outcome (outcome_congr hstep rfl) rfl ?_
      refine (reference_follows hlists hnames (Nat.le_of_lt_succ hlength) rfl hpos).bind ?_
      rintro stop t tail ⟨hbefore, htail, ht⟩
      -- behind it the machine stands in the same list
      have hmode' : t.mode = .item := by
        rw [ht]
        exact hclosing.afterType
      have hclosing' : Closing t closing := hclosing.congr (by rw [ht]; rfl) (by rw [ht]; rfl)
      have hnesting : s.nesting = t.nesting := by
        rw [ht]
        rfl
      rw [List.length_cons] at hlength htail
      rw [hnesting]
      refine (hlists (by omega) hbefore hmode' hclosing').mono ?_
      rintro stop u more ⟨hstop, hmore, hhead, hu⟩
      refine ⟨hstop, by rw [List.length_cons]; omega, hhead, ?_⟩
      rw [hu, ht]
      rfl

/-- Lists and names call each other, so both are followed at once, by induction on the length of the
text that is left. -/
theorem lists_and_names_follow (chars : List Char) (n : Nat) :
    ReferencesFollow chars n ∧ ClassNameFollows chars n := by
  induction n with
  | zero => exact ⟨fun h => absurd h (Nat.not_lt_zero _), fun h => absurd h (Nat.not_lt_zero _)⟩
  | succ n ih => exact ⟨references_follow ih.1 ih.2, className_follows ih.1 ih.2⟩

/-! ### Formal type parameters -/

/-- The machine stands among formal type parameters, outside of any bound. -/
structure InFormals (s : Scanner) : Prop where
  stack : s.stack = []
  ground : s.ground = .formals

/-- A bound has ended, and no further one follows it. -/
def AfterBounds (chars : List Char) (s : Scanner) (rest : List Char) (stop : Nat) (t : Scanner)
    (tail : List Char) : Prop :=
  Before chars stop tail ∧ tail.length ≤ rest.length ∧ (∃ c more, tail = c :: more ∧ c ≠ ':') ∧
    t = { s with mode := .afterBound, found := t.found }

theorem bound_follows (hs : InFormals s) (hmode : s.mode = .type) (h : Before chars pos rest) :
    Follows s rest (fun stop t tail => Before chars stop tail ∧ tail.length < rest.length ∧
      t = { s with mode := .afterBound, found := t.found }) (reference chars 0 pos) := by
  obtain ⟨hlists, hnames⟩ := lists_and_names_follow chars rest.length
  have hnesting : s.nesting = 0 := by rw [Scanner.nesting, hs.stack, List.length_nil]
  have hfollows := reference_follows hlists hnames (Nat.le_refl _) hmode h
  rw [hnesting] at hfollows
  refine hfollows.mono ?_
  rintro stop t tail ⟨hstop, htail, ht⟩
  refine ⟨hstop, htail, ht.trans ?_⟩
  have hafter : s.afterType = .afterBound := by
    simp only [Scanner.afterType, hs.stack, hs.ground]
  rw [Scanner.completed, hafter]

/-- The bounds behind the first one are followed, each behind a colon of its own, by induction on
the length of the text. -/
theorem furtherBounds_follows (n : Nat) (hlength : rest.length < n) (hs : InFormals s)
    (hmode : s.mode = .afterBound) (h : Before chars pos rest) :
    Follows s rest (AfterBounds chars s rest) (furtherBounds chars pos) := by
  induction n generalizing s pos rest with
  | zero => exact absurd hlength (Nat.not_lt_zero _)
  | succ n ih =>
    rw [furtherBounds]
    cases rest with
    | nil =>
      rw [byte_nil h]
      exact .throw (outcome_nil (by rw [Scanner.atEnd, hmode]))
    | cons c rest =>
      rw [byte_cons h, pure_bind]
      by_cases hc : c = ':'
      · subst hc
        rw [if_pos (lead_self (by decide))]
        have hstep : s.step ':' = .ok { s with mode := .type } := by
          rw [Scanner.step, hmode]
          rfl
        refine .of_step hstep rfl ?_
        refine (bound_follows (s := { s with mode := .type }) ⟨hs.stack, hs.ground⟩ rfl
          (h.next_of_lt (by decide))).bind ?_
        rintro stop t tail ⟨hstop, htail, ht⟩
        rw [List.length_cons] at hlength
        have ht' : InFormals t := by
          rw [ht]
          exact ⟨hs.stack, hs.ground⟩
        -- behind the bound the machine is where it was in front of the colon
        refine (ih (by omega) ht' (by rw [ht]) hstop).mono ?_
        rintro stop u more ⟨hbefore, hmore, hnext, hu⟩
        refine ⟨hbefore, by rw [List.length_cons]; omega, hnext, ?_⟩
        rw [hu, ht]
      · rw [if_neg (lead_ne (by decide) hc)]
        exact .pure ⟨h, Nat.le_refl _, ⟨c, rest, rfl, hc⟩, (with_mode hmode).symm⟩

/-- An identifier has no part in what is found: the machine stays in its state up to the colon
behind it. -/
theorem outcome_identifier (hmode : s.mode = .identifier) {part : List Char}
    (hpart : ':' ∉ part) (rest : List Char) : outcome s (part ++ rest) = outcome s rest := by
  induction part with
  | nil => rfl
  | cons c part ih =>
    obtain ⟨hc, hpart⟩ := not_or.1 (mt List.mem_cons.2 hpart)
    have hstep : s.step c = .ok s := by
      rw [Scanner.step, hmode]
      exact congrArg Except.ok (if_neg (Ne.symm hc))
    rw [List.cons_append, outcome_of_step hstep]
    exact ih hpart

theorem outcome_formal (hmode : s.mode = .formal) {c : Char} (hc : c ≠ '>') (hcolon : c ≠ ':')
    (rest : List Char) :
    outcome s (c :: rest) = outcome { s with mode := .identifier } rest := by
  refine outcome_of_step ?_
  rw [Scanner.step, hmode]
  exact (if_neg hc).trans (if_neg hcolon)

/-- Past an identifier and the colon behind it the machine is in front of the first bound, whatever
the identifier is. -/
theorem outcome_colon (hmode : s.mode = .formal) {part : List Char} (hpart : ':' ∉ part)
    (hclose : part.head? ≠ some '>') (rest : List Char) :
    outcome s (part ++ ':' :: rest) = outcome { s with mode := .bound } rest := by
  cases part with
  | nil =>
    refine outcome_of_step ?_
    rw [Scanner.step, hmode]
    rfl
  | cons c part =>
    obtain ⟨hc, hpart⟩ := not_or.1 (mt List.mem_cons.2 hpart)
    rw [List.cons_append, outcome_formal hmode (fun h => hclose (congrArg some h)) (Ne.symm hc),
      outcome_identifier rfl hpart]
    exact outcome_of_step rfl

/-- The formal type parameters have ended. -/
def AfterFormals (chars : List Char) (s : Scanner) (stop : Nat) (t : Scanner)
    (tail : List Char) : Prop :=
  Before chars stop tail ∧ t = { s with ground := .results, mode := .opening, found := t.found }

/-- From the colon behind an identifier to the next identifier. The first bound may be missing, if a
second one follows. -/
theorem bounds_follow (hs : InFormals s) (hmode : s.mode = .bound) (h : Before chars pos rest) :
    Follows s rest (AfterBounds chars s rest) (bounds chars pos) := by
  rw [bounds]
  cases rest with
  | nil =>
    rw [byte_nil h]
    exact .bind (.throw (outcome_nil (by rw [Scanner.atEnd, hmode]))) fun _ _ _ h => h
  | cons c rest =>
    rw [byte_cons h, pure_bind]
    by_cases hc : c = ':'
    · subst hc
      rw [if_pos (lead_self (by decide))]
      have hstep : s.step ':' = Scanner.step { s with mode := .afterBound } ':' := by
        rw [Scanner.step, Scanner.step, hmode]
        rfl
      refine .of_outcome (outcome_congr hstep rfl) rfl ?_
      exact furtherBounds_follows (s := { s with mode := .afterBound }) _ (Nat.lt_succ_self _)
        ⟨hs.stack, hs.ground⟩ rfl h
    · rw [if_neg (lead_ne (by decide) hc)]
      -- without a second colon the machine is in front of the first bound
      have hstep : s.step c = Scanner.step { s with mode := .type } c := by
        rw [Scanner.step, Scanner.step, hmode]
        exact if_neg hc
      refine .of_outcome (outcome_congr hstep rfl) rfl ?_
      refine (bound_follows (s := { s with mode := .type }) ⟨hs.stack, hs.ground⟩ rfl h).bind ?_
      rintro stop t tail ⟨hstop, htail, ht⟩
      have ht' : InFormals t := by
        rw [ht]
        exact ⟨hs.stack, hs.ground⟩
      refine (furtherBounds_follows _ (Nat.lt_succ_self _) ht' (by rw [ht]) hstop).mono ?_
      rintro stop u more ⟨hbefore, hmore, hnext, hu⟩
      refine ⟨hbefore, by omega, hnext, ?_⟩
      rw [hu, ht]

/-- The colon after an identifier is found, and the machine goes to the bounds behind it. The
descent looks for it in the whole rest of the text. -/
theorem find?_colon (hmode : s.mode = .formal) (h : Before chars pos rest) (hcolon : ':' ∈ rest)
    (hclose : rest.head? ≠ some '>') :
    ∃ length more, find? ':' rest = some length ∧ Before chars (pos + length + 1) more ∧
      more.length < rest.length ∧ outcome s rest = outcome { s with mode := .bound } more := by
  obtain ⟨part, more, rfl, hpart⟩ := List.eq_append_cons_of_mem hcolon
  refine ⟨_, more, find?_append hpart more, h.append.next_of_lt (by decide), ?_, ?_⟩
  · rw [List.length_append, List.length_cons]
    omega
  · refine outcome_colon hmode hpart (fun hhead => hclose ?_) more
    rw [List.head?_append, hhead, Option.some_or]

/-- An identifier without a colon is not complete. The machine reads to the end of the text and
finds nothing more. -/
theorem outcome_noColon (hmode : s.mode = .formal) (hc : c ≠ '>') (hcolon : ':' ∉ c :: rest) :
    outcome s (c :: rest) = (s.found, some .noIdentifier) := by
  obtain ⟨hne, hrest⟩ := not_or.1 (mt List.mem_cons.2 hcolon)
  rw [outcome_formal hmode hc (Ne.symm hne), ← List.append_nil rest, outcome_identifier rfl hrest]
  rfl

/-- Behind the bounds the machine does what it does before an identifier. -/
theorem step_afterBound (hmode : s.mode = .afterBound) (hc : c ≠ ':') :
    s.step c = Scanner.step { s with mode := .formal } c := by
  rw [Scanner.step, Scanner.step, hmode]
  exact if_neg hc

/-- **Formal type parameters** are followed up to the bracket behind them, one identifier with its
bounds after the other. -/
theorem formals_follow (n : Nat) (hlength : rest.length < n) (hs : InFormals s)
    (hmode : s.mode = .formal) (h : Before chars pos rest) :
    Follows s rest (AfterFormals chars s) (formals chars pos) := by
  induction n generalizing s pos rest with
  | zero => exact absurd hlength (Nat.not_lt_zero _)
  | succ n ih =>
    rw [formals]
    cases rest with
    | nil =>
      rw [byte_nil h]
      exact .throw (outcome_nil (by rw [Scanner.atEnd, hmode]))
    | cons c rest =>
      rw [byte_cons h, pure_bind]
      by_cases hclose : c = '>'
      · subst hclose
        rw [if_pos (lead_self (by decide))]
        have hstep : s.step '>' = .ok { s with ground := .results, mode := .opening } := by
          rw [Scanner.step, hmode]
          rfl
        exact .of_step hstep rfl (.pure ⟨h.next_of_lt (by decide), rfl⟩)
      rw [if_neg (lead_ne (by decide) hclose), slice, slice?_rest h, Guarded.expect, pure_bind]
      by_cases hcolon : ':' ∈ c :: rest
      · obtain ⟨length, more, hfind, hpos, hmore, houtcome⟩ :=
          find?_colon hmode h hcolon (mt Option.some.inj hclose)
        rw [hfind]
        refine .of_outcome houtcome rfl ?_
        refine (bounds_follow (s := { s with mode := .bound }) ⟨hs.stack, hs.ground⟩ rfl
          hpos).bind ?_
        rintro stop t tail ⟨hstop, htail, ⟨d, tail, rfl, hd⟩, ht⟩
        have hstep := step_afterBound (s := t) (by rw [ht]) hd
        refine .of_outcome (outcome_congr hstep rfl) rfl ?_
        -- no colon follows, so the machine takes the character as if another parameter began there
        refine (ih (s := { t with mode := .formal }) (by omega) ?_ rfl hstop).mono ?_
        · rw [ht]
          exact ⟨hs.stack, hs.ground⟩
        · rintro stop u more ⟨hbefore, hu⟩
          refine ⟨hbefore, ?_⟩
          rw [hu, ht]
      · rw [find?_of_not_mem hcolon]
        exact .throw (outcome_noColon hmode hclose hcolon)

/-! ### A whole text -/

/-- The machine stands behind formal type parameters, or there are none. -/
structure AtOpening (chars : List Char) (pos : Nat) (s : Scanner) (rest : List Char) : Prop where
  before : Before chars pos rest
  stack : s.stack = []
  ground : s.ground = .results
  mode : s.mode = .opening

/-- The text begins with type parameters or without them. In both cases the machine comes to where
the arguments or the types begin. -/
theorem opening_follows {c : Char} (h : chars = c :: rest) :
    Follows Scanner.initial chars (AtOpening chars) (opening chars) := by
  have hstart := Before.start chars
  have hfront : Before chars 0 (c :: rest) := ⟨[], h, rfl⟩
  have hbyte : byte chars 0 = pure (lead c) := byte_cons hfront
  rw [opening, hbyte, pure_bind]
  by_cases hc : c = '<'
  · subst hc
    rw [if_pos (lead_self (by decide))]
    have hpos : Before chars 1 rest := ⟨['<'], h, rfl⟩
    let s : Scanner := { Scanner.initial with ground := .formals, mode := .formal }
    have hfollows := formals_follow (s := s) _ (Nat.lt_succ_self _) ⟨rfl, rfl⟩ rfl hpos
    have hstep : Scanner.initial.step '<' = .ok s := rfl
    have houtcome : outcome Scanner.initial chars = outcome s rest := by
      rw [h]
      exact outcome_of_step hstep
    refine (hfollows.mono ?_).of_outcome houtcome rfl
    rintro stop t tail ⟨hstop, ht⟩
    exact ⟨hstop, by rw [ht]; rfl, by rw [ht], by rw [ht]⟩
  · rw [if_neg (lead_ne (by decide) hc)]
    let s : Scanner := { Scanner.initial with mode := .opening }
    have hstep : Scanner.initial.step c = s.step c := if_neg hc
    have houtcome : outcome Scanner.initial chars = outcome s chars := by
      rw [h]
      exact outcome_congr hstep rfl
    exact .of_outcome houtcome rfl (.pure ⟨hstart, rfl, rfl, rfl⟩)

/-- The machine stands among the types at the end. -/
structure AtResults (chars : List Char) (pos : Nat) (s : Scanner) (rest : List Char) :
    Prop where
  before : Before chars pos rest
  stack : s.stack = []
  ground : s.ground = .results
  mode : s.mode = .item

/-- The types in parentheses, and the parenthesis that closes them. -/
theorem parenthesis_follows (h : AtOpening chars pos s ('(' :: rest)) :
    Follows s ('(' :: rest) (AtResults chars) (do
      let stop ← references chars 0 (some ')'.toUInt8) (pos + 1)
      return stop + 1) := by
  let t : Scanner := { s with ground := .arguments, mode := .item }
  have hstep : s.step '(' = .ok t := by
    rw [Scanner.step, h.mode]
    rfl
  refine .of_step hstep rfl ?_
  have hnesting : t.nesting = 0 := congrArg List.length h.stack
  have hlist := (lists_and_names_follow chars (rest.length + 1)).1 (Nat.lt_succ_self _)
    (h.before.next_of_lt (by decide)) rfl (.parenthesis (s := t) h.stack rfl)
  rw [hnesting] at hlist
  refine Follows.bind hlist ?_
  rintro stop u tail ⟨hstop, htail, hhead, hu⟩
  obtain ⟨tail, rfl⟩ := List.head?_eq_some_iff.1 hhead
  have hstack : u.stack = [] := by
    rw [hu]
    exact h.stack
  have hclose : u.step ')' = .ok { u with ground := .results, mode := .item } := by
    have hground : u.ground = .arguments := by rw [hu]
    have hmode : u.mode = .item := by rw [hu]
    rw [Scanner.step, hmode]
    change u.item ')' = _
    simp only [Scanner.item, hstack, hground, if_pos]
  exact .of_step hclose rfl (.pure ⟨hstop.next_of_lt (by decide), hstack, rfl, rfl⟩)

/-- A signature has arguments in parentheses if it begins with one, and else it begins with the
types at once. -/
theorem arguments_follow (h : AtOpening chars pos s rest) :
    Follows s rest (AtResults chars) (arguments chars pos) := by
  rw [arguments]
  let t : Scanner := { s with mode := .item }
  have hnone : Follows t rest (AtResults chars) (pure pos : Descent Nat) :=
    .pure ⟨h.before, h.stack, h.ground, rfl⟩
  cases rest with
  | nil =>
    rw [if_neg (by rw [h.before.byte?_nil]; exact nofun)]
    have hatEnd : s.atEnd = t.atEnd := by
      simp only [Scanner.atEnd, h.mode, h.stack, h.ground, t]
    have houtcome : outcome s [] = outcome t [] := by
      rw [outcome, outcome, Scanner.run, Scanner.run, hatEnd]
    exact .of_outcome houtcome rfl hnone
  | cons c rest =>
    rw [h.before.byte?_cons]
    by_cases hc : c = '('
    · subst hc
      rw [if_pos (congrArg some (lead_self (by decide)))]
      exact parenthesis_follows h
    · rw [if_neg (mt Option.some.inj (lead_ne (by decide) hc))]
      have hstep : s.step c = t.step c := by
        rw [Scanner.step, h.mode]
        exact if_neg hc
      exact .of_outcome (outcome_congr hstep rfl) rfl hnone

/-- **The whole text** is followed to its end, where nothing may be left open. -/
theorem signature_follows (chars : List Char) :
    Follows Scanner.initial chars (fun _ t tail => tail = [] ∧ t.atEnd = none)
      (signature chars) := by
  rw [signature]
  cases hchars : chars with
  | nil => exact .throw rfl
  | cons c rest =>
    rw [← hchars, if_neg (by rw [hchars]; exact nofun)]
    refine (opening_follows hchars).bind fun pos s rest hs => ?_
    refine (arguments_follow hs).bind fun pos s rest hs => ?_
    have hnesting : s.nesting = 0 := by rw [Scanner.nesting, hs.stack, List.length_nil]
    have hlist := (lists_and_names_follow chars (rest.length + 1)).1 (Nat.lt_succ_self _)
      hs.before hs.mode (.text hs.stack hs.ground)
    rw [hnesting] at hlist
    refine Follows.bind hlist ?_
    rintro stop t tail ⟨-, -, hhead, ht⟩
    refine .pure ⟨List.head?_eq_none_iff.1 hhead, ?_⟩
    rw [ht]
    exact Closing.atEnd_none (.text hs.stack hs.ground) rfl

end Chars

/-- **Reading by position comes to the same as scanning**, for every text. It does not crash:
no text is cut inside a character or out of range, and the descent comes to an end. -/
theorem scanByPosition_eq_some_scan (text : String) : scanByPosition text = some (scan text) := by
  rcases Chars.signature_follows text.toList with
    ⟨why, found, hrun, houtcome⟩ | ⟨_, t, tail, hrun, houtcome, rfl, hend⟩
  · have hrun : Chars.signature text.toList [] = some (.error why, found) := hrun
    obtain ⟨hfound, hfault⟩ := Prod.mk.inj houtcome
    rw [scanByPosition, hrun, scan]
    change some (Scan.mk _ _) = some (Scan.mk _ _)
    rw [hfound, hfault]
    rfl
  · have hrun : Chars.signature text.toList [] = some (.ok (), t.found) := hrun
    obtain ⟨hfound, hfault⟩ := Prod.mk.inj houtcome
    rw [scanByPosition, hrun, scan]
    change some (Scan.mk _ _) = some (Scan.mk _ _)
    rw [hfound, hfault, Scanner.run, hend]
    rfl

end ClassFile.Signature
