import ClassFile.Guarded.Trail
import ClassFile.Proofs.Descent

/-!
# The trail of a descent

Whatever text is read, the descent over its bytes comes to an end, and so does every call in it:
what has no end leaves no trail. Each call gives a position as it should, with the counter of type
arguments as it was; inside, the counter is the number of calls for type arguments around it, which
is never more than the limit; and every piece that is cut out of the text begins and ends between
characters (`ClassFile.Signature.Tracked.Text.signature_orderly`).

The descent that leaves a trail goes along with the one that leaves none
(`ClassFile.Signature.Mirrors`): both come to the same end, and the deeds that are added to the
trail are in order. This is shown of one routine after the other, by recursion on how many bytes are
left.
-/

namespace ClassFile.Signature

/-! ### Positions between characters -/

section Boundaries

variable {chars rest : List Char} {pos start stop : Nat} {b : UInt8}

/-- A byte that is read stands in the text, so its position is not behind the end. -/
theorem lt_of_byte? (h : Chars.byte? chars pos = some b) : pos < (utf8 chars).length :=
  (List.getElem?_eq_some_iff.1 h).1

theorem Before.isBoundary (h : Before chars pos rest) : IsBoundary chars pos := by
  obtain ⟨front, hchars, hpos⟩ := h
  exact ⟨front, rest, hchars, hpos⟩

theorem IsBoundary.le (h : IsBoundary chars pos) : pos ≤ (utf8 chars).length := by
  obtain ⟨front, rest, rfl, rfl⟩ := h
  rw [utf8_append, List.length_append]
  exact Nat.le_add_right ..

theorem isBoundary_length (chars : List Char) : IsBoundary chars (utf8 chars).length :=
  ⟨chars, [], (List.append_nil _).symm, rfl⟩

/-- One of the first 128 bytes is a character by itself. It is never a part of the encoding of
another character, so what stands before it ends where it begins. -/
theorem exists_before_of_byte? (h : Chars.byte? chars pos = some b) (hb : b.toNat < 128) :
    ∃ c rest, c.toNat < 128 ∧ Before chars pos (c :: rest) := by
  induction chars generalizing pos with
  | nil => cases h
  | cons c chars ih =>
    rcases Nat.lt_or_ge pos c.utf8Size with hpos | hpos
    -- the byte is one of the first character, which has no other
    · have hmem : b ∈ String.utf8EncodeChar c := by
        have hlength : pos < (String.utf8EncodeChar c).length := by
          rwa [String.length_utf8EncodeChar]
        rw [Chars.byte?, utf8_cons, List.getElem?_append_left hlength] at h
        exact List.mem_of_getElem? h
      have hc : c.toNat < 128 := Nat.lt_of_not_le fun hc =>
        Nat.not_le_of_lt hb (le_of_mem_utf8EncodeChar hc hmem)
      rw [utf8Size_of_lt hc, Nat.lt_one_iff] at hpos
      subst hpos
      exact ⟨c, chars, hc, .start _⟩
    · rw [Chars.byte?, utf8_cons,
        List.getElem?_append_right (by rwa [String.length_utf8EncodeChar]),
        String.length_utf8EncodeChar] at h
      obtain ⟨d, rest, hd, front, hfront, hlength⟩ := ih h
      refine ⟨d, rest, hd, c :: front, congrArg (c :: ·) hfront, ?_⟩
      rw [length_utf8_cons, ← hlength]
      omega

/-- A position at which one of the first 128 bytes stands is one between two characters. -/
theorem isBoundary_of_byte? (h : Chars.byte? chars pos = some b) (hb : b.toNat < 128) :
    IsBoundary chars pos := by
  obtain ⟨c, rest, -, hbefore⟩ := exists_before_of_byte? h hb
  exact hbefore.isBoundary

/-- And so is the position behind it. -/
theorem isBoundary_succ_of_byte? (h : Chars.byte? chars pos = some b) (hb : b.toNat < 128) :
    IsBoundary chars (pos + 1) := by
  obtain ⟨c, rest, hc, hbefore⟩ := exists_before_of_byte? h hb
  exact (hbefore.next_of_lt hc).isBoundary

/-- What begins and ends between characters can be cut out of a text. This is the only condition
under which a cut does not crash. -/
theorem exists_slice? (hle : start ≤ stop) (hstart : IsBoundary chars start)
    (hstop : IsBoundary chars stop) : ∃ part, slice? chars start stop = some part := by
  obtain ⟨front, rest, rfl, rfl⟩ := hstart
  obtain ⟨long, tail, hchars, rfl⟩ := hstop
  rcases List.append_eq_append_iff.1 hchars with ⟨part, rfl, rfl⟩ | ⟨part, rfl, rfl⟩
  · refine ⟨part, ?_⟩
    rw [utf8_append, List.length_append]
    exact slice?_append ⟨front, rfl, rfl⟩
  -- the end is not behind the beginning, so it is the same, and what is cut out is empty
  · have hsame : (utf8 long).length = (utf8 (long ++ part)).length + (utf8 []).length := by
      refine Nat.le_antisymm ?_ hle
      rw [utf8_append, List.length_append]
      exact Nat.le_add_right ..
    have hbefore : Before (long ++ part ++ rest) (utf8 (long ++ part)).length ([] ++ rest) :=
      ⟨long ++ part, rfl, rfl⟩
    rw [hsame]
    exact ⟨[], slice?_append hbefore⟩

end Boundaries

/-! ### Deeds in order -/

/-- A deed is in order, and so is all that is done in the course of it. -/
inductive Deed.Sound (chars : Chars) : (active : Nat) → Deed → Prop where
  | call {active pos before after : Nat} {routine : Routine} {inner : List Deed}
    {result : Except DescriptorFault Nat} :
    Orderly chars active (.call routine pos before after result inner) →
    (∀ deed ∈ inner, Sound chars (routine.inside active) deed) →
    Sound chars active (.call routine pos before after result inner)
  | cut {active start stop : Nat} : Orderly chars active (.cut start stop) →
    Sound chars active (.cut start stop)

namespace Deed

variable {chars : Chars} {active : Nat} {deed : Deed} {deeds : List Deed}

/-- A deed that is sound is in order: a call leaves the counter as it was, makes progress and ends
within the text, and a cut is between characters. -/
theorem Sound.orderly (h : deed.Sound chars active) : deed.Orderly chars active := by
  cases h with
  | call h _ => exact h
  | cut h => exact h

/-- What happens inside a call is sound if all deeds at the top are, with as many lists of type
arguments open as there are around it. -/
theorem Sound.of_happens (hdeeds : ∀ deed ∈ deeds, deed.Sound chars 0)
    (h : Happens deeds active deed) : deed.Sound chars active := by
  induction h with
  | here hmem => exact hdeeds _ hmem
  | within _ hmem ih =>
    cases ih with
    | call _ hinner => exact hinner _ hmem

end Deed

/-! ### Steps without a trail -/

/-- The byte stands at a position that is not before the other. -/
def Reaches (chars : Chars) (b : UInt8) (pos stop : Nat) : Prop :=
  pos ≤ stop ∧ Chars.byte? chars stop = some b

/-- A byte that is reached from a later position is reached from an earlier one. -/
theorem Reaches.of_le {chars : Chars} {b : UInt8} {pos next stop : Nat}
    (h : Reaches chars b next stop)
    (hle : pos ≤ next) : Reaches chars b pos stop := ⟨Nat.le_trans hle h.1, h.2⟩

/-- The step comes to an end. If it succeeds then `Q` holds of its value. -/
def Settles {α : Type} (Q : α → Prop) (m : Descent α) : Prop :=
  ∀ s, ∃ result t, m s = some (result, t) ∧ ∀ value, result = .ok value → Q value

namespace Settles

variable {α β : Type} {Q : α → Prop} {R : β → Prop} {m : Descent α} {f : α → Descent β}

theorem mono {P : α → Prop} (h : Settles P m) (hQ : ∀ value, P value → Q value) : Settles Q m := by
  intro s
  obtain ⟨result, t, hrun, hvalue⟩ := h s
  exact ⟨result, t, hrun, fun value hresult => hQ value (hvalue value hresult)⟩

theorem pure {value : α} (h : Q value) : Settles Q (Pure.pure value) := by
  refine fun s => ⟨.ok value, s, rfl, ?_⟩
  rintro _ ⟨⟩
  exact h

/-- Two steps that leave no trail come to something in a row, for each of them does. -/
theorem bind (hm : Settles Q m) (hf : ∀ value, Q value → Settles R (f value)) :
    Settles R (m >>= f) := by
  intro s
  obtain ⟨result, t, hrun, hvalue⟩ := hm s
  cases result with
  | error why => exact ⟨.error why, t, Guarded.bind_of_error hrun, nofun⟩
  | ok value =>
    obtain ⟨result, u, hrun', hlast⟩ := hf value (hvalue value rfl) t
    exact ⟨result, u, (Guarded.bind_of_ok hrun).trans hrun', hlast⟩

theorem byte (chars : Chars) (pos : Nat) :
    Settles (fun b => Chars.byte? chars pos = some b) (Chars.byte chars pos) := by
  rw [Chars.byte]
  cases Chars.byte? chars pos with
  | some b => exact .pure rfl
  | none =>
    refine fun s => ⟨.error .ended, s, rfl, ?_⟩
    rintro _ ⟨⟩

/-- Brackets are skipped up to the first other byte, which is there: at the end of the text it is a
fault. -/
theorem skipBrackets (chars : Chars) (pos : Nat) :
    Settles (fun found => Reaches chars found.2 pos found.1) (Chars.skipBrackets chars pos) := by
  rw [Chars.skipBrackets]
  refine (byte chars pos).bind fun b hb => ?_
  have hlt := lt_of_byte? hb
  split
  · exact (skipBrackets chars (pos + 1)).mono fun found h => h.of_le (Nat.le_succ pos)
  · exact .pure ⟨Nat.le_refl _, hb⟩
termination_by (utf8 chars).length - pos

/-- The name of a type variable is skipped up to its semicolon, or the end of the text is a
fault. -/
theorem skipVariable (chars : Chars) (pos : Nat) :
    Settles (Reaches chars ';'.toUInt8 pos) (Chars.skipVariable chars pos) := by
  rw [Chars.skipVariable]
  refine (byte chars pos).bind fun b hb => ?_
  have hlt := lt_of_byte? hb
  split
  · rename_i hsemicolon
    exact .pure ⟨Nat.le_refl _, hsemicolon ▸ hb⟩
  · exact (skipVariable chars (pos + 1)).mono fun stop h => h.of_le (Nat.le_succ pos)
termination_by (utf8 chars).length - pos

end Settles

/-! ### The two descents -/

/-- Both steps come to the same end, and find the same names. The counter is what it was, and the
deeds that are added to the trail are in order. If the steps succeed then `Q` holds of the value. -/
def Mirrors {α : Type} (chars : Chars) (active : Nat) (Q : α → Prop) (m : Descent α)
    (m' : Tracked α) : Prop :=
  ∀ trail : Trail, trail.nesting = active → ∃ result found deeds,
    m trail.found = some (result, found) ∧
    m' trail = some (result, ⟨found, active, deeds ++ trail.deeds⟩) ∧
    (∀ deed ∈ deeds, deed.Sound chars active) ∧ ∀ value, result = .ok value → Q value

namespace Mirrors

variable {α β : Type} {chars : Chars} {active : Nat} {Q : α → Prop} {R : β → Prop}
  {m : Descent α} {m' : Tracked α} {f : α → Descent β} {f' : α → Tracked β}

/-- What is known of the value in the end may be weakened. -/
theorem mono {P : α → Prop} (h : Mirrors chars active P m m') (hQ : ∀ value, P value → Q value) :
    Mirrors chars active Q m m' := by
  intro trail hnesting
  obtain ⟨result, found, deeds, hrun, hrun', hdeeds, hvalue⟩ := h trail hnesting
  exact ⟨result, found, deeds, hrun, hrun', hdeeds, fun value hresult =>
    hQ value (hvalue value hresult)⟩

theorem pure {value : α} (h : Q value) :
    Mirrors chars active Q (Pure.pure value) (Pure.pure value) := by
  rintro trail rfl
  refine ⟨.ok value, trail.found, [], rfl, rfl, nofun, ?_⟩
  rintro _ ⟨⟩
  exact h

theorem throw (why : DescriptorFault) :
    Mirrors chars active Q (MonadExcept.throw why) (MonadExcept.throw why) := by
  rintro trail rfl
  exact ⟨.error why, trail.found, [], rfl, rfl, nofun, nofun⟩

/-- The deeds of two steps in a row are those of the first one, and then those of the second one.
All of them are in order if both leave orderly trails. -/
theorem bind (hm : Mirrors chars active Q m m')
    (hf : ∀ value, Q value → Mirrors chars active R (f value) (f' value)) :
    Mirrors chars active R (m >>= f) (m' >>= f') := by
  intro trail hnesting
  obtain ⟨result, middle, deeds, hrun, hrun', hdeeds, hvalue⟩ := hm trail hnesting
  cases result with
  | error why =>
    exact ⟨.error why, middle, deeds, Guarded.bind_of_error hrun,
      Guarded.bind_of_error hrun', hdeeds, nofun⟩
  | ok value =>
    obtain ⟨last, found, more, hrest, hrest', hmore, hlast⟩ :=
      hf value (hvalue value rfl) ⟨middle, active, deeds ++ trail.deeds⟩ rfl
    -- the last deed comes first, so those of the second step stand in front
    refine ⟨last, found, more ++ deeds, (Guarded.bind_of_ok hrun).trans hrest, ?_,
      fun deed hdeed => ?_, hlast⟩
    · rw [Guarded.bind_of_ok hrun', hrest', List.append_assoc]
    · exact (List.mem_append.1 hdeed).elim (hmore deed) (hdeeds deed)

theorem ite {p : Prop} [Decidable p] {n : Descent α} {n' : Tracked α}
    (h : p → Mirrors chars active Q m m') (h' : ¬p → Mirrors chars active Q n n') :
    Mirrors chars active Q (if p then m else n) (if p then m' else n') := by
  split
  · exact h ‹p›
  · exact h' ‹¬p›

/-- A step of the first descent, as it is. It leaves no deeds behind, so nothing is to be in
order. -/
theorem plain (h : Settles Q m) : Mirrors chars active Q m (Tracked.plain m) := by
  rintro trail rfl
  obtain ⟨result, found, hrun, hvalue⟩ := h trail.found
  refine ⟨result, found, [], hrun, ?_, nofun, hvalue⟩
  rw [Tracked.plain, hrun]
  rfl

theorem found (name : String) : Mirrors chars active (fun _ : PUnit => True) (modify (name :: ·))
    (modify fun trail : Trail => { trail with found := name :: trail.found }) := by
  rintro trail rfl
  exact ⟨.ok ⟨⟩, name :: trail.found, [], rfl, rfl, nofun, fun _ _ => trivial⟩

/-- What begins and ends between characters is cut out in order, and the cut is written down in the
trail. -/
theorem slice {start stop : Nat} (hle : start ≤ stop) (hstart : IsBoundary chars start)
    (hstop : IsBoundary chars stop) : Mirrors chars active (fun _ => True)
    (Chars.slice chars start stop) (Tracked.slice chars start stop) := by
  rintro trail rfl
  obtain ⟨part, hpart⟩ := exists_slice? hle hstart hstop
  refine ⟨.ok part, trail.found, [.cut start stop], ?_, ?_, ?_, fun _ _ => trivial⟩
  · rw [Chars.slice, hpart]
    rfl
  · rw [Tracked.slice, hpart]
    rfl
  · rintro _ (_ | ⟨_, ⟨⟩⟩)
    exact .cut ⟨hle, hstart, hstop⟩

/-- A call of a routine is in order if its body is, and gives what the routine should give. For all
routines but type arguments the counter inside is the one outside. -/
theorem call {routine : Routine} {pos : Nat} {P : Nat → Prop} {m : Descent Nat} {body : Tracked Nat}
    (hroutine : routine.inside active = active) (hactive : active ≤ nestingLimit)
    (h : Mirrors chars active P m body) (hP : ∀ stop, P stop → routine.Gives chars pos stop) :
    Mirrors chars active P m (Tracked.called routine pos body) := by
  rintro trail rfl
  obtain ⟨result, found, deeds, hrun, hrun', hdeeds, hvalue⟩ := h trail.opened rfl
  refine ⟨result, found, [.call routine pos trail.nesting trail.nesting result deeds], hrun, ?_, ?_,
    hvalue⟩
  · change (body trail.opened).bind _ = _
    rw [hrun', Trail.opened, List.append_nil]
    rfl
  · rintro _ (_ | ⟨_, ⟨⟩⟩)
    refine .call ⟨rfl, rfl, hactive, fun stop hstop => hP stop (hvalue stop hstop)⟩ ?_
    rwa [hroutine]

/-- The call for type arguments: inside, the counter is one more, and afterwards it is what it was,
also after a fault. If there are too many already it is not entered. -/
theorem typeArguments {pos : Nat} {P : Nat → Prop} {m : Descent Nat}
    (hactive : active ≤ nestingLimit)
    (h : active < nestingLimit →
      Mirrors chars (active + 1) P m (Tracked.Text.references chars (some '>'.toUInt8) pos))
    (hP : ∀ stop, P stop → Routine.typeArguments.Gives chars pos stop) :
    Mirrors chars active P
      (if active = nestingLimit then MonadExcept.throw DescriptorFault.tooDeep else m)
      (Tracked.Text.typeArguments chars pos) := by
  rintro trail rfl
  rw [Tracked.Text.typeArguments]
  split
  -- at the limit there is nothing in the call
  · refine ⟨.error .tooDeep, trail.found,
      [.call .typeArguments pos trail.nesting trail.nesting (.error .tooDeep) []],
        rfl, rfl, ?_, nofun⟩
    rintro _ (_ | ⟨_, ⟨⟩⟩)
    exact .call ⟨rfl, rfl, hactive, nofun⟩ nofun
  -- below it, the list is read with a larger counter, and it leaves the counter as large
  · rename_i hlimit
    obtain ⟨result, found, deeds, hrun, hrun', hdeeds, hvalue⟩ :=
      h (Nat.lt_of_le_of_ne hactive hlimit) { trail.opened with nesting := trail.nesting + 1 } rfl
    refine ⟨result, found, [.call .typeArguments pos trail.nesting trail.nesting result deeds],
      hrun, ?_, ?_, hvalue⟩
    · change (Tracked.Text.references chars _ pos _).bind _ = _
      rw [hrun', Trail.opened, List.append_nil]
      rfl
    · rintro _ (_ | ⟨_, ⟨⟩⟩)
      exact .call ⟨rfl, rfl, hactive, fun stop hstop => hP stop (hvalue stop hstop)⟩ hdeeds

end Mirrors

/-! ### One routine after the other -/

namespace Tracked.Text

/-- Where a list of types ends: at the byte that ends it, or at the end of the text. -/
def ListEnds (chars : Chars) (delimiter : Option UInt8) (pos stop : Nat) : Prop :=
  Routine.references.Gives chars pos stop ∧ Chars.byte? chars stop = delimiter

/-- Where a type ends: behind it, between characters. -/
def TypeEnds (chars : Chars) (pos stop : Nat) : Prop := pos < stop ∧ IsBoundary chars stop

/-- A type that has ended behind its first byte has made progress, as a call of its routine
should. -/
theorem TypeEnds.gives {chars : Chars} {pos stop : Nat} (h : TypeEnds chars pos stop) :
    Routine.reference.Gives chars pos stop := ⟨h.1, h.2.le⟩

/-- The call for a list of types is one call more than the list itself, and comes to the same. -/
theorem references_mirror {chars : Chars} {active pos : Nat} {delimiter : Option UInt8}
    {m : Descent Nat} (hactive : active ≤ nestingLimit)
    (h : Mirrors chars active (ListEnds chars delimiter pos) m (list chars delimiter pos)) :
    Mirrors chars active (ListEnds chars delimiter pos) m (references chars delimiter pos) := by
  rw [references_eq]
  exact .call rfl hactive h fun _ h => h.1

-- Each of these calls the others as the routines do. No more bytes are left for what is called, and
-- where there are as many, type arguments call a list, and a list calls a type.
mutual

/-- **A list of types** is gone through in order up to what closes it. The call is made at every
type, and each type begins behind the one before. -/
theorem list_mirrors (chars : Chars) (active : Nat) (delimiter : Option UInt8) (pos : Nat)
    (hactive : active ≤ nestingLimit) (hpos : pos ≤ (utf8 chars).length) :
    Mirrors chars active (ListEnds chars delimiter pos)
      (Chars.references chars active delimiter pos) (list chars delimiter pos) := by
  rw [Chars.references.eq_def, list.eq_def]
  cases hbyte : Chars.byte? chars pos with
  | none =>
    cases delimiter with
    | none => exact .pure ⟨⟨Nat.le_refl _, hpos⟩, hbyte⟩
    | some b => exact .throw _
  | some b =>
    have hlt := lt_of_byte? hbyte
    refine .ite (fun hend => .pure ⟨⟨Nat.le_refl _, hpos⟩, hbyte.trans hend⟩) fun _ => ?_
    -- the rest of the list is read from a later position, which is still one of the text
    refine (reference_mirrors chars active pos hactive).bind fun next hnext => ?_
    have hless := hnext.1
    refine (list_mirrors chars active delimiter next hactive hnext.gives.2).mono
      fun stop hstop => ?_
    exact ⟨⟨Nat.le_trans (Nat.le_of_lt hless) hstop.1.1, hstop.1.2⟩, hstop.2⟩
termination_by ((utf8 chars).length - pos, 1)

/-- **A type** is gone through in order: what comes of it depends on its first byte, and every kind
of type ends behind that byte. -/
theorem reference_mirrors (chars : Chars) (active pos : Nat) (hactive : active ≤ nestingLimit) :
    Mirrors chars active (TypeEnds chars pos) (Chars.reference chars active pos)
      (reference chars pos) := by
  rw [Chars.reference, reference_eq]
  refine .call rfl hactive ?_ fun _ => TypeEnds.gives
  rw [type]
  refine (Mirrors.plain (.skipBrackets chars pos)).bind ?_
  rintro ⟨start, b⟩ ⟨hstart, hb : Chars.byte? chars start = some b⟩
  have hlt := lt_of_byte? hb
  -- whatever the type is, it ends with one of the first 128 bytes, and the position behind it is
  -- given
  have hends {last : UInt8} {stop : Nat} (h : Reaches chars last start stop)
      (hlast : last.toNat < 128) : TypeEnds chars pos (stop + 1) :=
    ⟨Nat.lt_succ_of_le (Nat.le_trans hstart h.1), isBoundary_succ_of_byte? h.2 hlast⟩
  refine .ite (fun _ => ?_) fun _ => .ite (fun _ => ?_) fun _ => .ite (fun hname => ?_) fun _ =>
    .ite (fun hsimple => ?_) fun _ => .throw _
  · exact (typeArguments_mirrors chars active (start + 1) hactive hlt).bind fun stop hstop =>
      .pure (hends (hstop.of_le (Nat.le_succ _)) (by decide))
  · exact (Mirrors.plain (.skipVariable chars (start + 1))).bind fun stop hstop =>
      .pure (hends (hstop.of_le (Nat.le_succ _)) (by decide))
  · have hafter : IsBoundary chars (start + 1) := isBoundary_succ_of_byte? hb (hname ▸ by decide)
    refine (className_mirrors chars active [] (start + 1) (start + 1) hactive hafter
      (Nat.le_refl _)).bind ?_
    rintro ⟨stop, name⟩ hstop
    have hsemicolon := hends (hstop.of_le (Nat.le_succ _)) (by decide)
    refine .ite (fun _ => ?_) fun _ => ?_
    · exact (Mirrors.throw (Q := fun _ => True) _).bind fun _ _ =>
        (Mirrors.found _).bind fun _ _ => .pure hsemicolon
    · exact (Mirrors.found _).bind fun _ _ => .pure hsemicolon
  · exact .pure (hends ⟨Nat.le_refl _, hb⟩ (lt_of_isSimple hsimple))
termination_by ((utf8 chars).length - pos, 0)

/-- **A class name** is gone through in order up to its semicolon. The parts of the name are cut out
between characters, for they end at plain bytes. -/
theorem className_mirrors (chars : Chars) (active : Nat) (known : List Char) (start pos : Nat)
    (hactive : active ≤ nestingLimit) (hstart : IsBoundary chars start) (hle : start ≤ pos) :
    Mirrors chars active (fun found => Reaches chars ';'.toUInt8 pos found.1)
      (Chars.className chars active known start pos) (className chars known start pos) := by
  rw [Chars.className, className]
  refine (Mirrors.plain (.byte chars pos)).bind fun b hb => ?_
  have hlt := lt_of_byte? hb
  -- a piece is cut out only where a byte stands that is a character by itself
  have hcut (h : b.toNat < 128) : Mirrors chars active (fun _ => True) (Chars.slice chars start pos)
      (slice chars start pos) := .slice hle hstart (isBoundary_of_byte? hb h)
  refine .ite (fun hend => ?_) fun _ => .ite (fun hopen => ?_) fun _ =>
    .ite (fun hdot => ?_) fun _ => ?_
  · exact (hcut (hend ▸ by decide)).bind fun part _ => .pure ⟨Nat.le_refl _, hend ▸ hb⟩
  · refine (hcut (hopen ▸ by decide)).bind fun part _ => ?_
    refine (typeArguments_mirrors chars active (pos + 1) hactive hlt).bind fun stop hstop => ?_
    have hless := hstop.1
    have hafter : IsBoundary chars (stop + 1) := isBoundary_succ_of_byte? hstop.2 (by decide)
    exact (className_mirrors chars active _ (stop + 1) (stop + 1) hactive hafter
      (Nat.le_refl _)).mono fun found h => h.of_le (by omega)
  · refine (hcut (hdot ▸ by decide)).bind fun part _ => ?_
    have hafter : IsBoundary chars (pos + 1) := isBoundary_succ_of_byte? hb (hdot ▸ by decide)
    exact (className_mirrors chars active _ (pos + 1) (pos + 1) hactive hafter (Nat.le_refl _)).mono
      fun found h => h.of_le (Nat.le_succ pos)
  · exact (className_mirrors chars active known start (pos + 1) hactive hstart
      (Nat.le_succ_of_le hle)).mono fun found h => h.of_le (Nat.le_succ pos)
termination_by ((utf8 chars).length - pos, 0)

/-- **Type arguments** are gone through in order up to the bracket that closes them, with the
counter one higher inside. -/
theorem typeArguments_mirrors (chars : Chars) (active pos : Nat) (hactive : active ≤ nestingLimit)
    (hpos : pos ≤ (utf8 chars).length) :
    Mirrors chars active (Reaches chars '>'.toUInt8 pos) (Chars.typeArguments chars active pos)
      (typeArguments chars pos) := by
  rw [Chars.typeArguments]
  refine .typeArguments hactive (fun hlimit => ?_) fun stop h => ⟨h.1, lt_of_byte? h.2⟩
  exact (references_mirror hlimit (list_mirrors chars (active + 1) _ pos hlimit hpos)).mono
    fun stop h => ⟨h.1.1, h.2⟩
termination_by ((utf8 chars).length - pos, 2)

end

/-! ### Formal type parameters -/

/-- The bounds behind the first one, each behind a colon of its own. -/
theorem furtherBounds_mirrors (chars : Chars) (pos : Nat) (hpos : IsBoundary chars pos) :
    Mirrors chars 0 (fun stop => pos ≤ stop ∧ IsBoundary chars stop) (Chars.furtherBounds chars pos)
      (furtherBounds chars pos) := by
  rw [Chars.furtherBounds, furtherBounds]
  refine (Mirrors.plain (.byte chars pos)).bind fun b hb => ?_
  have hlt := lt_of_byte? hb
  refine .ite (fun _ => ?_) fun _ => .pure ⟨Nat.le_refl _, hpos⟩
  refine (reference_mirrors chars 0 (pos + 1) (Nat.zero_le _)).bind fun next hnext => ?_
  have hless := hnext.1
  exact (furtherBounds_mirrors chars next hnext.2).mono fun stop h => ⟨by omega, h.2⟩
termination_by (utf8 chars).length - pos

/-- The bounds of a parameter. The first of them may be missing, and then no call is made for it. -/
theorem bounds_mirrors (chars : Chars) (pos : Nat) :
    Mirrors chars 0 (fun stop => pos ≤ stop ∧ IsBoundary chars stop) (Chars.bounds chars pos)
      (bounds chars pos) := by
  rw [Chars.bounds, bounds]
  refine (Mirrors.plain (.byte chars pos)).bind fun b hb => ?_
  refine .ite (fun hcolon => ?_) fun _ => ?_
  · exact furtherBounds_mirrors chars pos (isBoundary_of_byte? hb (hcolon ▸ by decide))
  · refine (reference_mirrors chars 0 pos (Nat.zero_le _)).bind fun next hnext => ?_
    exact (furtherBounds_mirrors chars next hnext.2).mono fun stop h =>
      ⟨Nat.le_trans (Nat.le_of_lt hnext.1) h.1, h.2⟩

/-- The formal type parameters, one after the other, up to the bracket that closes them. Each
identifier is followed by a colon, so the rest becomes shorter. -/
theorem parameters_mirror (chars : Chars) (pos : Nat) (hpos : IsBoundary chars pos) :
    Mirrors chars 0 (fun stop => Routine.formals.Gives chars pos stop) (Chars.formals chars pos)
      (parameters chars pos) := by
  rw [Chars.formals, parameters]
  refine (Mirrors.plain (.byte chars pos)).bind fun b hb => ?_
  have hlt := lt_of_byte? hb
  refine .ite (fun _ => .pure ⟨Nat.lt_succ_self _, hlt⟩) fun _ => ?_
  refine (Mirrors.slice hpos.le hpos (isBoundary_length chars)).bind fun part _ => ?_
  cases find? ':' part with
  | none => exact .throw _
  | some length =>
    refine (bounds_mirrors chars (pos + length + 1)).bind fun next hnext => ?_
    have hless := hnext.1
    exact (parameters_mirror chars next hnext.2).mono fun stop h =>
      ⟨Nat.lt_of_le_of_lt (by omega) h.1, h.2⟩
termination_by (utf8 chars).length - pos

/-! ### A whole text -/

/-- A list of types outside of any type arguments, such as the supertypes of a class. -/
theorem outer_references_mirror {chars : Chars} (delimiter : Option UInt8) {pos : Nat}
    (hpos : pos ≤ (utf8 chars).length) :
    Mirrors chars 0 (ListEnds chars delimiter pos) (Chars.references chars 0 delimiter pos)
      (references chars delimiter pos) :=
  references_mirror (Nat.zero_le _) (list_mirrors chars 0 delimiter pos (Nat.zero_le _) hpos)

/-- What a text may begin with: formal type parameters, or nothing of that kind. -/
theorem opening_mirrors (chars : Chars) :
    Mirrors chars 0 (fun stop => stop ≤ (utf8 chars).length) (Chars.opening chars)
      (opening chars) := by
  rw [Chars.opening, opening]
  refine (Mirrors.plain (.byte chars 0)).bind fun b hb => ?_
  refine .ite (fun hopen => ?_) fun _ => .pure (Nat.zero_le _)
  have hafter : IsBoundary chars 1 := isBoundary_succ_of_byte? hb (hopen ▸ by decide)
  exact (Mirrors.call rfl (Nat.zero_le _) (parameters_mirror chars 1 hafter) fun _ h => h).mono
    fun stop hstop => hstop.2

/-- What may follow: the types of arguments in parentheses, or nothing of that kind. -/
theorem arguments_mirror {chars : Chars} {pos : Nat} (hpos : pos ≤ (utf8 chars).length) :
    Mirrors chars 0 (fun stop => stop ≤ (utf8 chars).length) (Chars.arguments chars pos)
      (arguments chars pos) := by
  rw [Chars.arguments, arguments]
  refine .ite (fun hopen => ?_) fun _ => .pure hpos
  exact (outer_references_mirror _ (lt_of_byte? hopen)).bind fun stop hstop =>
    .pure (lt_of_byte? hstop.2)

/-- **A whole text** is gone through in order, whether or not it follows the grammar. -/
theorem signature_mirrors (chars : Chars) :
    Mirrors chars 0 (fun _ => True) (Chars.signature chars) (signature chars) := by
  rw [Chars.signature, signature]
  refine .ite (fun _ => .throw _) fun _ => ?_
  refine (opening_mirrors chars).bind fun start hstart => ?_
  refine (arguments_mirror hstart).bind fun results hresults => ?_
  exact (outer_references_mirror none hresults).bind fun _ _ => .pure trivial

/-- **The descent makes progress and is safe**, whatever the text is. It comes to an end, with the
names and the fault that the scan has, and with the counter at zero. In its course no call is
without an end; each leaves the counter as it was, which is the number of calls for type arguments
around it and never more than the limit, and gives a position that lies where it should; and each
piece that is cut out of the text begins and ends between characters. -/
theorem signature_orderly (text : String) :
    ∃ result trail, signature text.toList .empty = some (result, trail) ∧
      scan text = ⟨trail.found.reverse,
        match result with
        | .ok () => none
        | .error why => some (.descriptor text why)⟩ ∧
      trail.nesting = 0 ∧
      ∀ active deed, Deed.Happens trail.deeds active deed → deed.Orderly text.toList active := by
  obtain ⟨result, found, deeds, hrun, hrun', hdeeds, -⟩ := signature_mirrors text.toList .empty rfl
  refine ⟨result, _, hrun', ?_, rfl, fun active deed hdeed => ?_⟩
  · have hscan := scanByPosition_eq_some_scan text
    rw [scanByPosition, show Chars.signature text.toList [] = _ from hrun] at hscan
    rw [← Option.some.inj hscan]
    cases result <;> rfl
  · rw [Trail.empty, List.append_nil] at hdeed
    exact (Deed.Sound.of_happens hdeeds hdeed).orderly

end Tracked.Text

end ClassFile.Signature
