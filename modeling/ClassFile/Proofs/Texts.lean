import Mathlib.Algebra.Group.Nat.Defs
import ClassFile.Layout.Text

/-!
# Texts are read as they were written

Bytes are read exactly if they fall into groups, and then as the characters for which the units of
these stand (`ClassFile.ModifiedUtf8.decode_meaning`); every text is read back from the bytes in
which it is written (`ClassFile.ModifiedUtf8.decode_written`). The stages of the encoding are undone
one after the other: a group of bytes in front of others is read as its unit
(`ClassFile.ModifiedUtf8.Group.units`), and the characters are told by the units
(`ClassFile.ModifiedUtf8.StandFor.characters`), since no character is a surrogate.

What a byte has in its upper and its lower bits is checked for all bytes of a kind; from there on
the bits of a unit are a sum.
-/

namespace ClassFile.ModifiedUtf8

/-! ### Bytes and units -/

/-- A byte with its highest bit clear is a unit by itself. -/
theorem bits_single : ∀ n < 0x80, UInt8.ofNat n &&& 0x80 = 0 ∧
    (UInt8.ofNat n).toUInt16 = .ofNat n := by
  decide

/-- The last six bits of a unit are written in a byte that begins with the bits one and zero, and
are read back from it. -/
theorem bits_continuation : ∀ n < 0x40, isContinuation (.ofNat (0x80 + n)) = true ∧
    (UInt8.ofNat (0x80 + n) &&& 0x3F).toNat = n := by
  decide

/-- The first five bits of a unit of two bytes are written behind three bits that say so. There are
few enough of them to go through all. -/
theorem bits_pairLead : ∀ n < 0x20, UInt8.ofNat (0xC0 + n) &&& 0x80 ≠ 0 ∧
    UInt8.ofNat (0xC0 + n) &&& 0xE0 = 0xC0 ∧ (UInt8.ofNat (0xC0 + n) &&& 0x1F).toNat = n := by
  decide

/-- The first four bits of a unit of three bytes are written behind four bits that say so. -/
theorem bits_tripleLead : ∀ n < 0x10, UInt8.ofNat (0xE0 + n) &&& 0x80 ≠ 0 ∧
    UInt8.ofNat (0xE0 + n) &&& 0xE0 ≠ 0xC0 ∧ UInt8.ofNat (0xE0 + n) &&& 0xF0 = 0xE0 ∧
    (UInt8.ofNat (0xE0 + n) &&& 0x0F).toNat = n := by
  decide

/-- A shift to the left multiplies, as long as nothing is lost at the top. -/
theorem toNat_shiftLeft {unit : UInt16} {shift : Nat} (hshift : shift < 16)
    (h : 2 ^ shift * unit.toNat < 2 ^ 16) :
    (unit <<< UInt16.ofNat shift).toNat = 2 ^ shift * unit.toNat := by
  have hmod : (UInt16.ofNat shift).toNat % 16 = shift := by
    rw [UInt16.toNat_ofNat']
    omega
  rw [UInt16.toNat_shiftLeft, hmod, Nat.shiftLeft_eq, Nat.mul_comm, Nat.mod_eq_of_lt h]

/-- Where the bits of two numbers do not overlap, they add up. -/
theorem toNat_or {high low : UInt16} {shift n : Nat} (hhigh : high.toNat = 2 ^ shift * n)
    (hlow : low.toNat < 2 ^ shift) : (high ||| low).toNat = high.toNat + low.toNat := by
  rw [UInt16.toNat_or, hhigh, Nat.two_pow_add_eq_or_of_lt hlow]

/-- A unit of two bytes is put together from the five and the six bits that it was taken apart
into. -/
theorem pairUnit_of_bits {x y : Nat} (hx : x < 0x20) (hy : y < 0x40) :
    pairUnit (.ofNat (0xC0 + x)) (.ofNat (0x80 + y)) = .ofNat (0x40 * x + y) := by
  obtain ⟨-, -, hhigh⟩ := bits_pairLead x hx
  obtain ⟨-, hlow⟩ := bits_continuation y hy
  rw [← UInt8.toNat_toUInt16] at hhigh hlow
  have hshift := toNat_shiftLeft (show 6 < 16 by decide)
    (show 2 ^ 6 * (UInt8.ofNat (0xC0 + x) &&& 0x1F).toUInt16.toNat < 2 ^ 16 by omega)
  rw [← UInt16.toNat_inj, pairUnit, show (6 : UInt16) = .ofNat 6 from rfl,
    toNat_or hshift (by omega), hshift, hhigh, hlow, UInt16.toNat_ofNat']
  omega

/-- A unit of three bytes is put together from four, six and six bits. -/
theorem tripleUnit_of_bits {x y z : Nat} (hx : x < 0x10) (hy : y < 0x40) (hz : z < 0x40) :
    tripleUnit (.ofNat (0xE0 + x)) (.ofNat (0x80 + y)) (.ofNat (0x80 + z)) =
      .ofNat (0x1000 * x + 0x40 * y + z) := by
  obtain ⟨-, -, -, hhigh⟩ := bits_tripleLead x hx
  obtain ⟨-, hmiddle⟩ := bits_continuation y hy
  obtain ⟨-, hlow⟩ := bits_continuation z hz
  rw [← UInt8.toNat_toUInt16] at hhigh hmiddle hlow
  rw [← UInt16.toNat_inj, tripleUnit, show (6 : UInt16) = .ofNat 6 from rfl,
    show (12 : UInt16) = .ofNat 12 from rfl, UInt16.toNat_ofNat']
  generalize (UInt8.ofNat (0xE0 + x) &&& 0x0F).toUInt16 = high at *
  generalize (UInt8.ofNat (0x80 + y) &&& 0x3F).toUInt16 = middle at *
  generalize (UInt8.ofNat (0x80 + z) &&& 0x3F).toUInt16 = low at *
  have hhigh' := toNat_shiftLeft (show 12 < 16 by decide)
    (show 2 ^ 12 * high.toNat < 2 ^ 16 by omega)
  have hmiddle' := toNat_shiftLeft (show 6 < 16 by decide)
    (show 2 ^ 6 * middle.toNat < 2 ^ 16 by omega)
  have hupper := toNat_or hhigh' (show (middle <<< UInt16.ofNat 6).toNat < 2 ^ 12 by omega)
  have hall := toNat_or (show (high <<< UInt16.ofNat 12 ||| middle <<< UInt16.ofNat 6).toNat =
    2 ^ 6 * (0x40 * high.toNat + middle.toNat) by omega) (show low.toNat < 2 ^ 6 by omega)
  omega

/-- The units of the rest are put behind the one that was read. -/
theorem units_cons {unit : UInt16} {rest : Bytes} {more : List UInt16} (h : units rest = .ok more) :
    (do return unit :: (← units rest) : Except TextFault _) = .ok (unit :: more) := by
  rw [h]
  rfl

/-- A group is read as its unit, in front of others, which are read in the same way. -/
theorem Group.units {bytes rest : Bytes} {unit : UInt16} {more : List UInt16}
    (first : Group bytes unit) (h : ModifiedUtf8.units rest = .ok more) :
    ModifiedUtf8.units (bytes ++ rest) = .ok (unit :: more) := by
  cases first with
  | single hx =>
    obtain ⟨hsingle, hbyte⟩ := bits_single _ hx
    rw [List.singleton_append, ModifiedUtf8.units.eq_def]
    dsimp only
    rw [if_pos hsingle, hbyte]
    exact units_cons h
  | pair hx hy =>
    obtain ⟨hlong, hpair, -⟩ := bits_pairLead _ hx
    obtain ⟨hlow, -⟩ := bits_continuation _ hy
    rw [List.cons_append, List.singleton_append, ModifiedUtf8.units, if_neg hlong, if_pos hpair,
      if_pos hlow, pairUnit_of_bits hx hy]
    exact units_cons h
  | triple hx hy hz =>
    obtain ⟨hlong, hpair, htriple, -⟩ := bits_tripleLead _ hx
    obtain ⟨hmiddle, -⟩ := bits_continuation _ hy
    obtain ⟨hlow, -⟩ := bits_continuation _ hz
    rw [List.cons_append, List.cons_append, List.singleton_append, ModifiedUtf8.units, if_neg hlong,
      if_neg hpair, if_pos htriple]
    dsimp only
    rw [hmiddle, hlow, Bool.and_true, if_pos rfl, tripleUnit_of_bits hx hy hz]
    exact units_cons h

/-- A text that is spelled by groups of bytes is read unit by unit, whatever groups they are: also a
group that is longer than it needs to be is read. -/
theorem Spells.units {bytes : Bytes} {more : List UInt16} (h : Spells bytes more) :
    ModifiedUtf8.units bytes = .ok more := by
  induction h with
  | nil => rfl
  | cons first _ ih => exact first.units ih

/-- The bytes of a unit are a group, of one, two or three bytes by the size of the unit. -/
theorem group_spells (unit : UInt16) : Group (group unit) unit := by
  have hlt := unit.toNat_lt
  have hunit : UInt16.ofNat unit.toNat = unit := UInt16.ofNat_toNat
  rw [group]
  split
  · have h := Group.single (x := unit.toNat) (by omega)
    rwa [hunit] at h
  split
  · have h := Group.pair (x := unit.toNat / 0x40) (y := unit.toNat % 0x40) (by omega) (by omega)
    rwa [Nat.div_add_mod, hunit] at h
  · have h := Group.triple (x := unit.toNat / 0x1000) (y := unit.toNat / 0x40 % 0x40)
      (z := unit.toNat % 0x40) (by omega) (by omega) (by omega)
    have hsum : 0x1000 * (unit.toNat / 0x1000) + 0x40 * (unit.toNat / 0x40 % 0x40) +
        unit.toNat % 0x40 = unit.toNat := by
      omega
    rwa [hsum, hunit] at h

/-- The groups of all units spell them, so every text can be written. -/
theorem spells_flatMap_group (more : List UInt16) : Spells (more.flatMap group) more := by
  induction more with
  | nil => exact .nil
  | cons unit more ih => exact .cons (group_spells unit) ih

/-! ### Groups and their bits -/

set_option maxRecDepth 2000 in
/-- What the first byte of a group can be, by how its first bits say how long the group is. -/
theorem lead_of_bits : ∀ n < 0x100, (UInt8.ofNat n &&& 0x80 = 0 → n < 0x80) ∧
    (UInt8.ofNat n &&& 0xE0 = 0xC0 → 0xC0 ≤ n ∧ n < 0xE0) ∧
    (UInt8.ofNat n &&& 0xF0 = 0xE0 → 0xE0 ≤ n ∧ n < 0xF0) ∧
    (isContinuation (.ofNat n) = true → 0x80 ≤ n ∧ n < 0xC0) := by
  decide

/-- One byte with its highest bit clear is a group. -/
theorem Group.of_single {a : UInt8} (ha : a &&& 0x80 = 0) : Group [a] a.toUInt16 := by
  have h := (lead_of_bits a.toNat a.toNat_lt).1
  rw [UInt8.ofNat_toNat] at h
  have hgroup := Group.single (h ha)
  rwa [UInt8.ofNat_toNat, ← (bits_single _ (h ha)).2, UInt8.ofNat_toNat] at hgroup

/-- A byte that is a number above a base is the base and the rest. -/
theorem ofNat_base {a : UInt8} {base : Nat} (h : base ≤ a.toNat) :
    UInt8.ofNat (base + (a.toNat - base)) = a := by
  rw [Nat.add_sub_cancel' h, UInt8.ofNat_toNat]

/-- A byte that continues a group has six bits to give. -/
theorem continuation_of_bits {a : UInt8} (ha : isContinuation a = true) :
    0x80 ≤ a.toNat ∧ a.toNat - 0x80 < 0x40 := by
  have h := (lead_of_bits a.toNat a.toNat_lt).2.2.2
  rw [UInt8.ofNat_toNat] at h
  have := h ha
  omega

/-- Two bytes are a group if the first one says that there are two, and the second one continues. -/
theorem Group.of_pair {a b : UInt8} (ha : a &&& 0xE0 = 0xC0) (hb : isContinuation b = true) :
    Group [a, b] (pairUnit a b) := by
  have h := (lead_of_bits a.toNat a.toNat_lt).2.1
  rw [UInt8.ofNat_toNat] at h
  obtain ⟨hlower, hupper⟩ := h ha
  obtain ⟨hb', hy⟩ := continuation_of_bits hb
  have hx : a.toNat - 0xC0 < 0x20 := by omega
  have hgroup := Group.pair hx hy
  rwa [← pairUnit_of_bits hx hy, ofNat_base hlower, ofNat_base hb'] at hgroup

/-- Three bytes are a group if the first one says that there are three, and the others continue. -/
theorem Group.of_triple {a b c : UInt8} (ha : a &&& 0xF0 = 0xE0) (hb : isContinuation b = true)
    (hc : isContinuation c = true) : Group [a, b, c] (tripleUnit a b c) := by
  have h := (lead_of_bits a.toNat a.toNat_lt).2.2.1
  rw [UInt8.ofNat_toNat] at h
  obtain ⟨hlower, hupper⟩ := h ha
  obtain ⟨hb', hy⟩ := continuation_of_bits hb
  obtain ⟨hc', hz⟩ := continuation_of_bits hc
  have hx : a.toNat - 0xE0 < 0x10 := by omega
  have hgroup := Group.triple hx hy hz
  rwa [← tripleUnit_of_bits hx hy hz, ofNat_base hlower, ofNat_base hb', ofNat_base hc'] at hgroup

/-- If a unit and more are read, then more are read from the rest. -/
theorem units_cons_ok {unit : UInt16} {rest : Bytes} {more : List UInt16}
    (h : (do return unit :: (← units rest) : Except TextFault _) = .ok more) :
    ∃ others, units rest = .ok others ∧ more = unit :: others := by
  cases hrest : units rest with
  | error fault =>
    rw [hrest] at h
    cases h
  | ok others =>
    rw [hrest] at h
    cases h
    exact ⟨others, rfl, rfl⟩

/-- Bytes that are read fall into groups, in one way only: the first byte of a group says how long
it is. -/
theorem spells_of_units {bytes : Bytes} {more : List UInt16} (h : units bytes = .ok more) :
    Spells bytes more := by
  fun_induction units bytes generalizing more with
  | case1 =>
    cases h
    exact .nil
  | case2 a rest ha ih =>
    obtain ⟨others, hrest, rfl⟩ := units_cons_ok h
    exact .cons (.of_single ha) (ih hrest)
  | case4 a _ ha b rest hb ih =>
    obtain ⟨others, hrest, rfl⟩ := units_cons_ok h
    exact .cons (.of_pair ha hb) (ih hrest)
  | case6 a _ _ ha b c rest hbc ih =>
    obtain ⟨others, hrest, rfl⟩ := units_cons_ok h
    obtain ⟨hb, hc⟩ := (Bool.and_eq_true ..).mp hbc
    exact .cons (.of_triple ha hb hc) (ih hrest)
  | _ => cases h

/-! ### Units and characters -/

/-- The upper six bits of a number of sixteen. -/
theorem and_surrogateMask {n : Nat} (h : n < 0x10000) : n &&& 0xFC00 = n / 0x400 * 0x400 := by
  have hupper : (n &&& 0xFC00) / 0x400 = n / 0x400 := by
    rw [show 0x400 = 2 ^ 10 from rfl, ← Nat.shiftRight_eq_div_pow, Nat.shiftRight_and_distrib,
      show 0xFC00 >>> 10 = 2 ^ 6 - 1 from rfl, Nat.and_two_pow_sub_one_eq_mod,
      Nat.shiftRight_eq_div_pow]
    omega
  have hlower : (n &&& 0xFC00) % 0x400 = 0 := by
    rw [show 0x400 = 2 ^ 10 from rfl, ← Nat.and_two_pow_sub_one_eq_mod, Nat.and_assoc]
    exact Nat.and_zero n
  omega

/-- A unit is the first half of a pair exactly in the first of the two ranges of surrogates. -/
theorem isHigh_iff (unit : UInt16) : isHighSurrogate unit = true ↔ IsHigh unit := by
  have hmask := and_surrogateMask unit.toNat_lt
  rw [isHighSurrogate, beq_iff_eq, ← UInt16.toNat_inj, UInt16.toNat_and, IsHigh]
  change unit.toNat &&& 0xFC00 = 0xD800 ↔ _
  omega

/-- And the second half exactly in the second one. -/
theorem isLow_iff (unit : UInt16) : isLowSurrogate unit = true ↔ IsLow unit := by
  have hmask := and_surrogateMask unit.toNat_lt
  rw [isLowSurrogate, beq_iff_eq, ← UInt16.toNat_inj, UInt16.toNat_and, IsLow]
  change unit.toNat &&& 0xFC00 = 0xDC00 ↔ _
  omega

/-- A number that is none of a surrogate, and not too large, is that of a character. -/
theorem toNat_ofNat_of_valid {n : Nat} (h : n < 0xD800 ∨ 0xDFFF < n ∧ n < 0x110000) :
    (Char.ofNat n).toNat = n := by
  rw [Char.ofNat, dif_pos h]
  rfl

/-- A unit that is no surrogate stands for the character with its number. -/
theorem characters_plain {unit : UInt16} {c : Char} (hc : c.toNat = unit.toNat)
    (units : List UInt16) : characters (unit :: units) = c :: characters units := by
  have hvalid : c.toNat < 0xD800 ∨ 0xDFFF < c.toNat ∧ c.toNat < 0x110000 := c.valid
  have hhigh : ¬isHighSurrogate unit := by
    rw [isHigh_iff, IsHigh]
    omega
  have hlow : ¬isLowSurrogate unit := by
    rw [isLow_iff, IsLow]
    omega
  rw [characters.eq_def]
  dsimp only
  rw [if_neg hhigh, if_neg hlow, ← hc, Char.ofNat_toNat]

/-- Two surrogates in order stand for one character beyond the first plane, ten bits of which are in
each of them. -/
theorem characters_pair {high low : UInt16} {c : Char} (hhigh : IsHigh high) (hlow : IsLow low)
    (hc : c.toNat = 0x10000 + (high.toNat - 0xD800) * 0x400 + (low.toNat - 0xDC00))
    (units : List UInt16) : characters (high :: low :: units) = c :: characters units := by
  have hjoined : 0x10000 + high.toNat % 0x400 * 0x400 + low.toNat % 0x400 = c.toNat := by
    rw [IsHigh] at hhigh
    rw [IsLow] at hlow
    omega
  rw [characters, if_pos ((isHigh_iff high).2 hhigh), if_pos ((isLow_iff low).2 hlow),
    joined, hjoined, Char.ofNat_toNat]

/-- The first half of a pair without the second half stands for the replacement character, and what
follows is read by itself. -/
theorem characters_loneHigh {high : UInt16} {units : List UInt16} (hhigh : IsHigh high)
    (hnext : ∀ next, units.head? = some next → ¬IsLow next) :
    characters (high :: units) = replacement :: characters units := by
  rw [characters.eq_def]
  dsimp only
  rw [if_pos ((isHigh_iff high).2 hhigh)]
  cases units with
  | nil => rw [characters]
  | cons next units => exact if_neg (mt (isLow_iff next).1 (hnext next rfl))

/-- The second half without the first one stands for it, too. -/
theorem characters_loneLow {low : UInt16} (hlow : IsLow low) (units : List UInt16) :
    characters (low :: units) = replacement :: characters units := by
  have hhigh : ¬isHighSurrogate low := by
    rw [isHigh_iff, IsHigh]
    rw [IsLow] at hlow
    omega
  rw [characters.eq_def]
  dsimp only
  rw [if_neg hhigh, if_pos ((isLow_iff low).2 hlow)]

/-- What units stand for is read off them: pairs of surrogates are put together, and single ones are
replaced. -/
theorem StandFor.characters {units : List UInt16} {chars : List Char} (h : StandFor units chars) :
    ModifiedUtf8.characters units = chars := by
  induction h with
  | nil => rfl
  | plain hc _ ih => rw [characters_plain hc, ih]
  | pair hhigh hlow hc _ ih => rw [characters_pair hhigh hlow hc, ih]
  | loneHigh hhigh hnext _ ih => rw [characters_loneHigh hhigh hnext, ih]
  | loneLow hlow _ ih => rw [characters_loneLow hlow, ih]

/-- Units stand for what is read off them. -/
theorem standFor_characters (units : List UInt16) : StandFor units (characters units) := by
  fun_induction characters units with
  | case1 => exact .nil
  | case2 high hhigh => exact .loneHigh ((isHigh_iff high).1 hhigh) nofun .nil
  | case3 high hhigh low units hlow ih =>
    rw [isHigh_iff] at hhigh
    rw [isLow_iff] at hlow
    refine .pair hhigh hlow ?_ ih
    rw [IsHigh] at hhigh
    rw [IsLow] at hlow
    rw [joined, toNat_ofNat_of_valid (by omega)]
    omega
  | case4 high hhigh next units hnext ih =>
    refine .loneHigh ((isHigh_iff high).1 hhigh) (fun _ h => ?_) ih
    cases h
    exact mt (isLow_iff next).2 hnext
  | case5 low units _ hlow ih => exact .loneLow ((isLow_iff low).1 hlow) ih
  | case6 unit units hhigh hlow ih =>
    refine .plain ?_ ih
    rw [isHigh_iff, IsHigh] at hhigh
    rw [isLow_iff, IsLow] at hlow
    have hlt := unit.toNat_lt
    exact toNat_ofNat_of_valid (by omega)

/-- The units of a character stand for it, in front of others. -/
theorem standFor_unitsOf (c : Char) {units : List UInt16} {chars : List Char}
    (h : StandFor units chars) : StandFor (unitsOf c ++ units) (c :: chars) := by
  have hvalid : c.toNat < 0xD800 ∨ 0xDFFF < c.toNat ∧ c.toNat < 0x110000 := c.valid
  rw [unitsOf]
  split
  · rename_i hplane
    exact .plain (UInt16.toNat_ofNat_of_lt' hplane).symm h
  · have hhigh : (UInt16.ofNat (0xD800 + (c.toNat - 0x10000) / 0x400)).toNat =
        0xD800 + (c.toNat - 0x10000) / 0x400 :=
      UInt16.toNat_ofNat_of_lt' (show _ < 0x10000 by omega)
    have hlow : (UInt16.ofNat (0xDC00 + (c.toNat - 0x10000) % 0x400)).toNat =
        0xDC00 + (c.toNat - 0x10000) % 0x400 :=
      UInt16.toNat_ofNat_of_lt' (show _ < 0x10000 by omega)
    refine .pair ?_ ?_ ?_ h
    · rw [IsHigh, hhigh]
      omega
    · rw [IsLow, hlow]
      omega
    · rw [hhigh, hlow]
      omega

/-- Characters are written in units that stand for them, one or two for each. -/
theorem standFor_flatMap_unitsOf (chars : List Char) : StandFor (chars.flatMap unitsOf) chars := by
  induction chars with
  | nil => exact .nil
  | cons c chars ih => exact standFor_unitsOf c ih

/-! ### Bytes and characters -/

/-- Bytes that are characters by themselves are groups, and each unit is the number of its
character. -/
theorem standFor_ascii {bytes : Bytes} (h : bytes.all isAscii = true) :
    Spells bytes (bytes.map UInt8.toUInt16) ∧
      StandFor (bytes.map UInt8.toUInt16) (bytes.map fun byte => Char.ofNat byte.toNat) := by
  induction bytes with
  | nil => exact ⟨.nil, .nil⟩
  | cons a bytes ih =>
    rw [List.all_cons, Bool.and_eq_true, isAscii, decide_eq_true_eq] at h
    obtain ⟨ha, hothers⟩ := h
    obtain ⟨hspells, hstand⟩ := ih hothers
    have hlt : a.toNat < 0x80 := ha
    have hsingle := (bits_single a.toNat hlt).1
    rw [UInt8.ofNat_toNat] at hsingle
    exact ⟨.cons (.of_single hsingle) hspells, .plain (toNat_ofNat_of_valid (by omega)) hstand⟩

/-- The short way gives what the units would, for texts in which all bytes are ASCII. -/
theorem decode_eq (bytes : Bytes) :
    decode bytes = (units bytes).map fun units => String.ofList (characters units) := by
  rw [decode]
  split
  · rename_i hascii
    obtain ⟨hspells, hstand⟩ := standFor_ascii hascii
    rw [hspells.units, Except.map, hstand.characters]
  · rfl

/-- Bytes are read as a text exactly if their units stand for its characters. -/
theorem decode_eq_ok_iff {bytes : Bytes} {text : String} :
    decode bytes = .ok text ↔ ∃ units, Spells bytes units ∧ StandFor units text.toList := by
  rw [decode_eq]
  refine ⟨fun h => ?_, fun ⟨units, hspells, hstand⟩ => ?_⟩
  · cases hunits : units bytes with
    | error fault =>
      rw [hunits] at h
      cases h
    | ok more =>
      rw [hunits] at h
      cases h
      rw [String.toList_ofList]
      exact ⟨more, spells_of_units hunits, standFor_characters more⟩
  · rw [hspells.units, Except.map, hstand.characters, String.ofList_toList]

/-- **Every text is read as it was written.** The units of its characters are those of its encoding,
and from these the same characters are put together. -/
theorem decode_written (text : String) : decode (encode text) = .ok text :=
  decode_eq_ok_iff.2
    ⟨text.toList.flatMap unitsOf, spells_flatMap_group _, standFor_flatMap_unitsOf text.toList⟩

/-- **What bytes mean as a text.** They are one exactly if they fall into groups of one, two and
three bytes, however long the group that a unit takes; then the text is the one for whose characters
the units stand, where a surrogate without its partner stands for the replacement character. And
each text is the meaning of the bytes in which it is written. -/
theorem decode_meaning :
    (∀ bytes, (∃ text, decode bytes = .ok text) ↔ ∃ units, Spells bytes units) ∧
      (∀ bytes text, decode bytes = .ok text ↔
        ∃ units, Spells bytes units ∧ StandFor units text.toList) ∧
      ∀ text, decode (encode text) = .ok text := by
  refine ⟨fun bytes => ⟨fun ⟨text, h⟩ => ?_, fun ⟨units, h⟩ => ?_⟩, fun _ _ => decode_eq_ok_iff,
    decode_written⟩
  · obtain ⟨units, h, -⟩ := decode_eq_ok_iff.1 h
    exact ⟨units, h⟩
  · have hstand := standFor_characters units
    rw [← String.toList_ofList (l := characters units)] at hstand
    exact ⟨_, decode_eq_ok_iff.2 ⟨units, h, hstand⟩⟩

end ClassFile.ModifiedUtf8
