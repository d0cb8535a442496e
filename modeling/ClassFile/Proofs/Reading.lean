import ClassFile.Proofs.Layout

/-!
# Readings of what was written

A reading *gives* a value for some bytes if it takes just these bytes off the front of its input and
makes the value of them, whatever follows (`ClassFile.Reader.Gives`). What it gives may depend on
the offset at which the bytes stand, as the padding of an instruction does. Readings that are done
one after the other give what they give for the pieces of their bytes, so a whole is read as it was
written if each part is.
-/

namespace ClassFile

/-- At this offset the reading takes these bytes off the front of its input, whatever follows them,
and makes this value of them. -/
def Reader.Gives {α : Type} (m : Reader α) (offset : Nat) (bytes : Bytes) (value : α) : Prop :=
  ∀ rest, m ⟨offset, bytes ++ rest⟩ = .ok value ⟨offset + bytes.length, rest⟩

theorem Form.length_i4 (n : Int32) : (Form.i4.encode n).length = 4 := Bytes.length_bigEndian 4 _

theorem Form.length_flatMap_encode {ρ : Type} {form : Form ρ} {width : Nat}
    (h : ∀ raw, (form.encode raw).length = width) (raws : List ρ) :
    (raws.flatMap form.encode).length = raws.length * width := by
  rw [List.length_flatMap, List.map_congr_left fun raw _ => h raw, List.map_const',
    List.sum_replicate_nat]

namespace Reader.Gives

variable {α β : Type} {m : Reader α} {offset : Nat} {bytes : Bytes}

theorem pure (value : α) : Gives (Pure.pure value) offset [] value := fun _ => rfl

/-- What follows the first of two readings stands behind its bytes, and is read from there. -/
theorem bind_eq {f : α → Reader β} {a : α} (hm : m.Gives offset bytes a) (rest : Bytes) :
    (m >>= f) ⟨offset, bytes ++ rest⟩ = f a ⟨offset + bytes.length, rest⟩ :=
  EStateM.bind_of_ok (hm rest)

/-- What two readings give in a row is given by their bytes together. -/
theorem bind {f : α → Reader β} {bytes' : Bytes} {a : α} {b : β} (hm : m.Gives offset bytes a)
    (hf : (f a).Gives (offset + bytes.length) bytes' b) :
    (m >>= f).Gives offset (bytes ++ bytes') b := by
  intro rest
  rw [List.append_assoc, hm.bind_eq, List.length_append, ← Nat.add_assoc]
  exact hf rest

/-- Nothing more is read after the last part, so its bytes are all there are. -/
theorem last {f : α → Reader β} {a : α} {b : β} (hm : m.Gives offset bytes a)
    (hf : (f a).Gives (offset + bytes.length) [] b) : (m >>= f).Gives offset bytes b := by
  have hall := hm.bind hf
  rwa [List.append_nil] at hall

/-- A value that was read may be turned into another one. -/
theorem map {f : α → β} {a : α} (hm : m.Gives offset bytes a) :
    Gives (do return f (← m)) offset bytes (f a) :=
  hm.last (pure (f a))

/-- Bytes are taken as they are, as many as are asked for. -/
theorem take {n : Nat} (h : bytes.length = n) : (Input.take n).Gives offset bytes bytes := by
  intro rest
  have hroom : n ≤ (bytes ++ rest).length := by
    rw [List.length_append, h]
    exact Nat.le_add_right n rest.length
  rw [Input.take_of_le hroom, List.take_left' h, List.drop_left' h, h]

theorem skip {n : Nat} (h : bytes.length = n) : (Input.skip n).Gives offset bytes () :=
  (take h).last (pure ())

/-- A number of a fixed width is computed from its bytes. -/
theorem number {ν : Type} {width : Nat} (f : Nat → ν) (h : bytes.length = width) :
    Gives (do return f (← Input.take width).number) offset bytes (f (Bytes.number bytes)) :=
  (take h).map

theorem u1 (byte : UInt8) : Input.u1.Gives offset [byte] byte := by
  have hbyte : UInt8.ofNat (Bytes.number [byte]) = byte := by
    rw [show Bytes.number [byte] = byte.toNat from Nat.zero_add _, UInt8.ofNat_toNat]
  have hread : Input.u1.Gives offset [byte] (UInt8.ofNat (Bytes.number [byte])) :=
    number UInt8.ofNat rfl
  rwa [hbyte] at hread

/-- Any two bytes are a number, and every number of two bytes has one way to be written. -/
theorem twoBytes (h : bytes.length = 2) :
    Input.u2.Gives offset bytes (UInt16.ofNat (Bytes.number bytes)) :=
  number UInt16.ofNat h

/-- The number of elements of a table is read back, if it fits into two bytes. -/
theorem count {n : Nat} (h : Form.count.Fits n) :
    Input.u2.Gives offset (Form.count.encode n) (UInt16.ofNat n) := by
  have hread := @twoBytes offset _ (Bytes.length_bigEndian 2 n)
  rwa [Bytes.number_bigEndian h] at hread

/-- A number of two bytes is read back from what it is written with. -/
theorem u2 (n : UInt16) : Input.u2.Gives offset (Form.u2.encode n) n := by
  have hread := @count offset n.toNat n.toNat_lt
  rwa [UInt16.ofNat_toNat] at hread

theorem u4 (n : UInt32) : Input.u4.Gives offset (Form.u4.encode n) n := by
  have hread := @number offset _ _ 4 UInt32.ofNat (Bytes.length_bigEndian 4 n.toNat)
  rwa [Bytes.number_bigEndian n.toNat_lt, UInt32.ofNat_toNat] at hread

theorem i4 (n : Int32) : Input.i4.Gives offset (Form.i4.encode n) n := by
  rw [← Int32.toInt32_toUInt32 n]
  exact (u4 n.toUInt32).map

theorem u8 (n : UInt64) : Input.u8.Gives offset (Form.u8.encode n) n := by
  have hread := @number offset _ _ 8 UInt64.ofNat (Bytes.length_bigEndian 8 n.toNat)
  rwa [Bytes.number_bigEndian n.toNat_lt, UInt64.ofNat_toNat] at hread

/-- A text is read from its length on. How it is encoded is left to the decoding of texts. -/
theorem text {text : String} (hlength : Form.count.Fits bytes.length)
    (htext : ModifiedUtf8.decode bytes = .ok text) :
    Input.text.Gives offset (Form.count.encode bytes.length ++ bytes) text := by
  refine (count hlength).bind ?_
  have hbytes : bytes.length = (UInt16.ofNat bytes.length).toNat :=
    (UInt16.toNat_ofNat_of_lt' hlength).symm
  refine (take hbytes).last ?_
  rw [htext]
  exact pure text

end Reader.Gives

end ClassFile
