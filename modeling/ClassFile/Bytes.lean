/-!
# Byte strings

A class file is a list of bytes, and the numbers in it are written with the most
significant byte first. Whether enough bytes are left for a field is asked without
measuring the whole rest of the file.
-/

namespace ClassFile

/-- A string of bytes. -/
abbrev Bytes := List UInt8

namespace Bytes

/-- Whether at least `n` bytes are there. Looks at no more than `n` of them. -/
def hasAtLeast : (n : Nat) → Bytes → Bool
  | 0, _ => true
  | _ + 1, [] => false
  | n + 1, _ :: rest => hasAtLeast n rest

@[simp]
theorem hasAtLeast_iff {n : Nat} {bytes : Bytes} :
    hasAtLeast n bytes = true ↔ n ≤ bytes.length := by
  induction bytes generalizing n with
  | nil => cases n <;> simp [hasAtLeast]
  | cons _ _ ih => cases n <;> simp [hasAtLeast, ih]

/-- The number that bytes stand for, the most significant first. -/
def number (bytes : Bytes) : Nat :=
  bytes.foldl (fun n byte => 256 * n + byte.toNat) 0

/-- The same with the least significant byte first. -/
def littleEndian : Bytes → Nat
  | [] => 0
  | byte :: rest => byte.toNat + 256 * littleEndian rest

theorem littleEndian_lt (bytes : Bytes) : bytes.littleEndian < Nat.pow 256 bytes.length := by
  induction bytes with
  | nil => simp [littleEndian]
  | cons byte rest ih =>
    have := byte.toNat_lt
    have hpow : Nat.pow 256 (rest.length + 1) = Nat.pow 256 rest.length * 256 := rfl
    simp only [littleEndian, List.length_cons]
    omega

end Bytes

end ClassFile
