import ClassFile.Guarded.Signature

/-!
# Positions in the bytes of a text

Signatures and descriptors are read by position: single bytes are looked at, and pieces are cut out
of the text. A position at which a character begins splits the text in two
(`ClassFile.Signature.Before`), and the byte there tells the character if that is one of the first
128, because no byte of a character beyond them looks like one of those
(`ClassFile.Signature.mem_utf8EncodeChar_iff`). So a search for the byte of such a character finds
the character, and what is cut out in front of it is a piece of the text.
-/

namespace ClassFile

/-! ### Composing guarded steps -/

namespace Guarded

variable {ε σ α β : Type} {m : Guarded ε σ α} {f : α → Guarded ε σ β} {s t : σ}

/-- A guarded step that has come to a value is followed by what is done with it. -/
theorem bind_of_ok {a : α} (h : m s = some (.ok a, t)) : (m >>= f) s = f a t := by
  change (m s).bind _ = _
  rw [h]
  rfl

/-- A guarded step that has come to a fault is the end. A crash is neither. -/
theorem bind_of_error {fault : ε} (h : m s = some (.error fault, t)) :
    (m >>= f) s = some (.error fault, t) := by
  change (m s).bind _ = _
  rw [h]
  rfl

/-- A result that was come to without a crash or a change. -/
def answer (result : Except ε α) : Guarded ε σ α := fun s => some (result, s)

end Guarded

namespace Signature

/-! ### Bytes of characters -/

/-- The first byte of a character. -/
def lead (c : Char) : UInt8 := (String.utf8EncodeChar c).headD 0

/-- A plain character, one of the first 128, is encoded as itself. -/
theorem utf8EncodeChar_of_lt {c : Char} (h : c.toNat < 128) :
    String.utf8EncodeChar c = [c.toUInt8] := by
  rw [String.utf8EncodeChar, if_pos (show c.val.toNat ≤ 127 from Nat.le_of_lt_succ h)]
  rfl

theorem utf8Size_of_lt {c : Char} (h : c.toNat < 128) : c.utf8Size = 1 := by
  rw [← String.length_utf8EncodeChar, utf8EncodeChar_of_lt h]
  rfl

/-- The bytes of a character beyond the first 128 are beyond the first 128 too. -/
theorem le_of_mem_utf8EncodeChar {c : Char} (h : 128 ≤ c.toNat) {b : UInt8}
    (hb : b ∈ String.utf8EncodeChar c) : 128 ≤ b.toNat := by
  have hmax : c.toNat < 0x110000 := by
    have := c.valid
    simp only [UInt32.isValidChar, Nat.isValidChar] at this
    rw [Char.toNat]
    omega
  rw [String.utf8EncodeChar, if_neg (by rw [Char.toNat] at h; omega)] at hb
  rw [Char.toNat] at h hmax
  have hsmall (n : Nat) (low : 128 ≤ n) (high : n < 256) : 128 ≤ (UInt8.ofNat n).toNat := by
    rw [UInt8.toNat_ofNat', Nat.mod_eq_of_lt (by omega)]
    exact low
  split at hb
  · simp only [List.mem_cons, List.not_mem_nil, or_false] at hb
    rcases hb with rfl | rfl
    · exact hsmall _ (by omega) (by omega)
    · exact hsmall _ (by omega) (by omega)
  split at hb
  · simp only [List.mem_cons, List.not_mem_nil, or_false] at hb
    rcases hb with rfl | rfl | rfl
    · exact hsmall _ (by omega) (by omega)
    · exact hsmall _ (by omega) (by omega)
    · exact hsmall _ (by omega) (by omega)
  · simp only [List.mem_cons, List.not_mem_nil, or_false] at hb
    rcases hb with rfl | rfl | rfl | rfl
    · exact hsmall _ (by omega) (by omega)
    · exact hsmall _ (by omega) (by omega)
    · exact hsmall _ (by omega) (by omega)
    · exact hsmall _ (by omega) (by omega)

theorem toNat_toUInt8 {c : Char} (h : c.toNat < 128) : c.toUInt8.toNat = c.toNat := by
  have : c.toUInt8 = UInt8.ofNat c.toNat := rfl
  rw [this, UInt8.toNat_ofNat', Nat.mod_eq_of_lt (by omega)]

/-- A plain byte in the encoding of a character is that character: the bytes of all other characters
are beyond the first 128. -/
theorem mem_utf8EncodeChar_iff {c d : Char} (hd : d.toNat < 128) :
    d.toUInt8 ∈ String.utf8EncodeChar c ↔ c = d := by
  constructor
  · intro h
    rcases Nat.lt_or_ge c.toNat 128 with hc | hc
    · rw [utf8EncodeChar_of_lt hc, List.mem_singleton] at h
      have hnat := congrArg UInt8.toNat h
      rw [toNat_toUInt8 hd, toNat_toUInt8 hc] at hnat
      exact Char.toNat_inj.1 hnat.symm
    · have hb := le_of_mem_utf8EncodeChar hc h
      rw [toNat_toUInt8 hd] at hb
      omega
  · rintro rfl
    rw [utf8EncodeChar_of_lt hd]
    exact List.mem_singleton_self _

theorem lead_mem (c : Char) : lead c ∈ String.utf8EncodeChar c := by
  rw [lead]
  cases h : String.utf8EncodeChar c with
  | nil =>
    have := c.utf8Size_pos
    rw [← String.length_utf8EncodeChar, h] at this
    exact absurd this (Nat.lt_irrefl 0)
  | cons b _ => exact List.mem_cons_self

/-- So the first byte of a character tells whether it is a certain plain one. The descent looks at
bytes, and this is why it is not deceived by other characters. -/
theorem lead_eq_iff {c d : Char} (hd : d.toNat < 128) : lead c = d.toUInt8 ↔ c = d := by
  constructor
  · intro h
    exact (mem_utf8EncodeChar_iff hd).1 (h ▸ lead_mem c)
  · rintro rfl
    rw [lead, utf8EncodeChar_of_lt hd]
    rfl

/-- A character beyond the first 128 has no byte of one of those, the first byte included. -/
theorem ne_of_mem_utf8EncodeChar {c d : Char} (hd : d.toNat < 128) (hc : c ≠ d) {b : UInt8}
    (hb : b ∈ String.utf8EncodeChar c) : b ≠ d.toUInt8 := by
  rintro rfl
  exact hc ((mem_utf8EncodeChar_iff hd).1 hb)

theorem lead_ne {c d : Char} (hd : d.toNat < 128) (hc : c ≠ d) : lead c ≠ d.toUInt8 :=
  mt (lead_eq_iff hd).1 hc

theorem lead_self {c : Char} (hc : c.toNat < 128) : lead c = c.toUInt8 := (lead_eq_iff hc).2 rfl

/-- The first byte of a character, as the character of the same number. -/
theorem ofUInt8_lead (c : Char) : Char.ofUInt8 (lead c) = leadByte c := by
  have hbyte (n : Nat) (h : n < 256) : (Char.ofUInt8 (UInt8.ofNat n)) = Char.ofNat n := by
    refine Char.toNat_inj.1 ?_
    rw [Char.ofNat, dif_pos (show n.isValidChar from .inl (by omega))]
    change (UInt8.ofNat n).toNat = n
    rw [UInt8.toNat_ofNat', Nat.mod_eq_of_lt h]
  have hmax : c.toNat < 0x110000 := by
    have := c.valid
    simp only [UInt32.isValidChar, Nat.isValidChar] at this
    rw [Char.toNat]
    omega
  rw [lead, leadByte, String.utf8EncodeChar]
  change Char.ofUInt8 (List.headD (if c.toNat ≤ 127 then _ else _) 0) = _
  by_cases h1 : c.toNat < 0x80
  · rw [if_pos (by omega), if_pos h1]
    exact (hbyte c.toNat (by omega)).trans (Char.ofNat_toNat c)
  rw [if_neg (by omega), if_neg h1]
  by_cases h2 : c.toNat < 0x800
  · rw [if_pos (show c.val.toNat ≤ 2047 from Nat.le_of_lt_succ h2), if_pos h2]
    refine (hbyte _ (by omega)).trans (congrArg Char.ofNat ?_)
    change c.toNat / 64 % 32 + 192 = 192 + c.toNat / 64
    omega
  rw [if_neg (show ¬ c.val.toNat ≤ 2047 from fun h => h2 (Nat.lt_succ_of_le h)), if_neg h2]
  by_cases h3 : c.toNat < 0x10000
  · rw [if_pos (show c.val.toNat ≤ 65535 from Nat.le_of_lt_succ h3), if_pos h3]
    refine (hbyte _ (by omega)).trans (congrArg Char.ofNat ?_)
    change c.toNat / 4096 % 16 + 224 = 224 + c.toNat / 4096
    omega
  · rw [if_neg (show ¬ c.val.toNat ≤ 65535 from fun h => h3 (Nat.lt_succ_of_le h)), if_neg h3]
    refine (hbyte _ (by omega)).trans (congrArg Char.ofNat ?_)
    change c.toNat / 262144 % 8 + 240 = 240 + c.toNat / 262144
    omega

/-- The letters of the simple types are plain. -/
theorem lt_of_isSimple {c : Char} (h : isSimple c = true) : c.toNat < 128 := by
  have hsmall : "BCDFIJSZV+-*".toList.all (·.toNat < 128) = true := by decide
  exact of_decide_eq_true (List.all_eq_true.1 hsmall c (List.contains_iff_mem.1 h))

/-- Whether a character is the letter of a simple type can be seen from its first byte. -/
theorem isSimpleByte_lead (c : Char) : Chars.isSimpleByte (lead c) = isSimple c := by
  rw [Chars.isSimpleByte]
  rcases Nat.lt_or_ge c.toNat 128 with hc | hc
  · rw [ofUInt8_lead, leadByte, if_pos hc]
  · have hsimple {d : Char} (hd : 128 ≤ d.toNat) : isSimple d = false :=
      Bool.eq_false_iff.2 fun h => Nat.not_lt.2 hd (lt_of_isSimple h)
    have hlead : 128 ≤ (Char.ofUInt8 (lead c)).toNat :=
      le_of_mem_utf8EncodeChar hc (lead_mem c)
    rw [hsimple hc, hsimple hlead]

/-! ### Positions in a text -/

variable {chars : List Char} {pos : Nat} {c : Char} {rest : List Char}

theorem utf8_cons (c : Char) (rest : List Char) :
    utf8 (c :: rest) = String.utf8EncodeChar c ++ utf8 rest := rfl

theorem utf8_append (front rest : List Char) : utf8 (front ++ rest) = utf8 front ++ utf8 rest :=
  List.flatMap_append

/-- A text is as long as its first character and the rest. -/
theorem length_utf8_cons (c : Char) (rest : List Char) :
    (utf8 (c :: rest)).length = c.utf8Size + (utf8 rest).length := by
  rw [utf8_cons, List.length_append, String.length_utf8EncodeChar]

/-- The position is the one before the rest of the text. -/
def Before (chars : List Char) (pos : Nat) (rest : List Char) : Prop :=
  ∃ front, chars = front ++ rest ∧ pos = (utf8 front).length

namespace Before

theorem start (chars : List Char) : Before chars 0 chars := ⟨[], rfl, rfl⟩

theorem append {part : List Char} (h : Before chars pos (part ++ rest)) :
    Before chars (pos + (utf8 part).length) rest := by
  obtain ⟨front, rfl, rfl⟩ := h
  refine ⟨front ++ part, (List.append_assoc ..).symm, ?_⟩
  rw [utf8_append, List.length_append]

/-- Behind a character comes the rest. -/
theorem next (h : Before chars pos (c :: rest)) : Before chars (pos + c.utf8Size) rest := by
  have happend : Before chars (pos + (utf8 [c]).length) rest := h.append
  rwa [length_utf8_cons] at happend

/-- Behind a plain character, which takes one byte, the position is one more. -/
theorem next_of_lt (h : Before chars pos (c :: rest)) (hc : c.toNat < 128) :
    Before chars (pos + 1) rest := by
  rw [← utf8Size_of_lt hc]
  exact h.next

/-- A byte behind a position is a byte of what is left there. -/
theorem byte?_append (h : Before chars pos rest) (n : Nat) :
    Chars.byte? chars (pos + n) = (utf8 rest)[n]? := by
  obtain ⟨front, rfl, rfl⟩ := h
  rw [Chars.byte?, utf8_append, List.getElem?_append_right (Nat.le_add_right ..),
    Nat.add_sub_cancel_left]

theorem byte?_nil (h : Before chars pos []) : Chars.byte? chars pos = none :=
  h.byte?_append 0

/-- At a character its first byte is found. -/
theorem byte?_cons (h : Before chars pos (c :: rest)) :
    Chars.byte? chars pos = some (lead c) := by
  rw [← Nat.add_zero pos, h.byte?_append 0, utf8_cons, lead]
  cases hbytes : String.utf8EncodeChar c with
  | nil =>
    have := c.utf8Size_pos
    rw [← String.length_utf8EncodeChar, hbytes] at this
    exact absurd this (Nat.lt_irrefl 0)
  | cons b _ => rfl

/-- What goes on byte by byte goes on past a whole character. -/
theorem skip {β : Type} {F : Nat → β} {P : UInt8 → Prop} (h : Before chars pos (c :: rest))
    (hF : ∀ pos b, Chars.byte? chars pos = some b → P b → F pos = F (pos + 1))
    (hc : ∀ b ∈ String.utf8EncodeChar c, P b) : F pos = F (pos + c.utf8Size) := by
  have hsteps (n : Nat) (hn : n ≤ c.utf8Size) : F pos = F (pos + n) := by
    induction n with
    | zero => rfl
    | succ n ih =>
      have hlength : n < (String.utf8EncodeChar c).length := by
        rw [String.length_utf8EncodeChar]
        omega
      have hbyte : Chars.byte? chars (pos + n) = some (String.utf8EncodeChar c)[n] := by
        rw [h.byte?_append, utf8_cons, List.getElem?_append_left hlength,
          List.getElem?_eq_getElem hlength]
      rw [ih (Nat.le_of_succ_le hn), hF _ _ hbyte (hc _ (List.getElem_mem hlength))]
      rfl
  exact hsteps c.utf8Size (Nat.le_refl _)

/-- What is dropped in front of a position leaves the rest: a position between characters does not
cut a character in two. -/
theorem dropBytes? (h : Before chars pos rest) :
    Signature.dropBytes? pos chars = some rest := by
  obtain ⟨front, rfl, rfl⟩ := h
  induction front with
  | nil => cases rest <;> rfl
  | cons c front ih =>
    have hsize := c.utf8Size_pos
    rw [length_utf8_cons]
    obtain ⟨n, hn⟩ : ∃ n, c.utf8Size + (utf8 front).length = n + 1 :=
      Nat.exists_eq_add_one_of_ne_zero (by omega)
    rw [hn, List.cons_append, Signature.dropBytes?, if_pos (by omega),
      show n + 1 - c.utf8Size = (utf8 front).length from by omega]
    exact ih

end Before

/-- And a part that ends between characters can be taken off the front. -/
theorem takeBytes?_append (part rest : List Char) :
    takeBytes? (utf8 part).length (part ++ rest) = some part := by
  induction part with
  | nil => cases rest <;> rfl
  | cons c part ih =>
    have hsize := c.utf8Size_pos
    rw [length_utf8_cons]
    obtain ⟨n, hn⟩ : ∃ n, c.utf8Size + (utf8 part).length = n + 1 :=
      Nat.exists_eq_add_one_of_ne_zero (by omega)
    rw [hn, List.cons_append, takeBytes?, if_pos (by omega),
      show n + 1 - c.utf8Size = (utf8 part).length from by omega, ih]
    rfl

/-- So what stands between two such positions can be cut out of the text. -/
theorem slice?_append {part : List Char} (h : Before chars pos (part ++ rest)) :
    slice? chars pos (pos + (utf8 part).length) = some part := by
  rw [slice?, h.dropBytes?, if_pos (Nat.le_add_right ..), Nat.add_sub_cancel_left]
  exact takeBytes?_append part rest

/-- The whole rest of a text can be cut off. -/
theorem slice?_rest (h : Before chars pos rest) :
    slice? chars pos (utf8 chars).length = some rest := by
  obtain ⟨front, hfront, hpos⟩ := h
  have hwhole : Before chars pos (rest ++ []) := ⟨front, by rw [List.append_nil, hfront], hpos⟩
  have hlength : (utf8 chars).length = pos + (utf8 rest).length := by
    rw [hfront, utf8_append, List.length_append, hpos]
  rw [hlength, slice?_append hwhole]

/-- A character that is looked for is found at its first place, which is as many bytes behind as
stand in front of it. -/
theorem find?_append {c : Char} {part : List Char} (hpart : c ∉ part) (rest : List Char) :
    find? c (part ++ c :: rest) = some (utf8 part).length := by
  have hne : ∀ d ∈ part, decide (d ≠ c) = true :=
    fun d hd => decide_eq_true (ne_of_mem_of_not_mem hd hpart)
  rw [find?, if_pos (List.mem_append_right part List.mem_cons_self),
    List.takeWhile_append_of_pos hne, List.takeWhile_cons_of_neg (by simp), List.append_nil]

/-- And if it is not there it is not found. -/
theorem find?_of_not_mem {c : Char} {text : List Char} (h : c ∉ text) : find? c text = none :=
  if_neg h

end Signature

end ClassFile
