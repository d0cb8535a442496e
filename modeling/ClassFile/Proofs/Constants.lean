import ClassFile.Layout.Pool
import ClassFile.Proofs.Reading
import ClassFile.Proofs.Texts

/-!
# The pool is read as it was written

A pool that was written entry by entry is read up to its last byte, and the table has each entry in
its slot and nothing anywhere else, whatever the table held before (`ClassFile.Pool.read_encode`).
If there are more slots than the entries need, a zero behind them ends the table.

The induction goes along the entries. In front of each of them stand the slots that are filled, as a
list, and behind it as many unused ones as there is room (`ClassFile.Pool.fill_encode`); a wide
entry takes two of these, and finds the second unused.
-/

namespace ClassFile

open RawEntry

/-! ### Single entries -/

section Entries

open Reader.Gives

variable {offset : Nat}

theorem Entry.read_gives {raw : RawEntry} (h : form.Fits raw) (slot : Nat) :
    (Entry.read raw.tag slot).Gives offset raw.body raw.entry := by
  cases raw with
  | utf8 value => exact (text h (ModifiedUtf8.decode_written value)).map
  | integer value => exact (i4 value).map
  | float bits => exact (u4 bits).map
  | long value =>
    have hread : (Entry.read 5 slot).Gives offset _ _ := (u8 value.toUInt64).map
    rwa [Int64.toInt64_toUInt64] at hread
  | double bits => exact (u8 bits).map
  | classInfo name => exact (u2 name).map
  | string text => exact (u2 text).map
  | ref kind owner member =>
    cases kind <;> exact (u2 owner).bind (u2 member).map
  | nameAndType name descriptor => exact (u2 name).bind (u2 descriptor).map
  | skipped kind operands =>
    cases kind <;> exact (skip h).map

end Entries

namespace RawEntry

theorem tag_ne_zero (raw : RawEntry) : raw.tag ≠ 0 := by
  cases raw with
  | ref kind => cases kind <;> exact of_decide_eq_true rfl
  | skipped kind => cases kind <;> exact of_decide_eq_true rfl
  | _ => exact of_decide_eq_true rfl

/-- What an entry leaves in the slots that it takes. -/
def cells (raw : RawEntry) : List Entry :=
  raw.entry :: List.replicate (raw.entry.width - 1) .unused

theorem length_cells (raw : RawEntry) : raw.cells.length = raw.entry.width := by
  rw [cells, List.length_cons, List.length_replicate, Nat.sub_add_cancel raw.entry.width_pos]

end RawEntry

namespace Pool

open Filling

theorem field_gives {α : Type} {reader : Reader α} {offset : Nat} {bytes : Bytes} {value : α}
    (h : reader.Gives offset bytes value) (rest : Bytes) (pool : Pool) :
    field reader ⟨⟨offset, bytes ++ rest⟩, pool⟩ =
      .ok value ⟨⟨offset + bytes.length, rest⟩, pool⟩ := by
  rw [field, h rest]

/-- The first entry is put into its slot, and the others are filled in behind it. A wide one takes
the slot behind it as well. -/
theorem fill_entry {raw : RawEntry} (h : form.Fits raw) (room slot offset : Nat) (rest : Bytes)
    (pool : Pool) :
    fill (room + 1) slot ⟨⟨offset, form.encode raw ++ rest⟩, pool⟩ =
      fill (room + 1 - raw.entry.width) (slot + raw.entry.width)
        ⟨⟨offset + (form.encode raw).length, rest⟩,
          ⟨pool.entries.setIfInBounds slot raw.entry⟩⟩ := by
  have htag : field Input.u1 ⟨⟨offset, form.encode raw ++ rest⟩, pool⟩ =
      .ok raw.tag ⟨⟨offset + 1, raw.body ++ rest⟩, pool⟩ :=
    field_gives (.u1 raw.tag) (raw.body ++ rest) pool
  have hbody := field_gives (@Entry.read_gives (offset + 1) raw h slot) rest pool
  rw [fill_succ, EStateM.bind_of_ok htag, if_neg raw.tag_ne_zero, EStateM.bind_of_ok hbody,
    Nat.add_assoc, Nat.add_comm 1]
  rfl

/-- An entry is put in front of unused slots. -/
theorem setIfInBounds_entry (raw : RawEntry) (filled : List Entry) {room : Nat}
    (hroom : raw.entry.width ≤ room) :
    (filled ++ List.replicate room Entry.unused).toArray.setIfInBounds filled.length raw.entry =
      (filled ++ raw.cells ++ List.replicate (room - raw.entry.width) Entry.unused).toArray := by
  have hwidth := raw.entry.width_pos
  have hsplit : List.replicate room Entry.unused = .unused ::
      (List.replicate (raw.entry.width - 1) .unused ++
        List.replicate (room - raw.entry.width) .unused) := by
    rw [List.replicate_append_replicate, ← List.replicate_succ]
    congr 1
    omega
  rw [List.setIfInBounds_toArray, List.set_append_right _ _ (Nat.le_refl _), Nat.sub_self, hsplit,
    List.set_cons_zero, List.append_assoc]
  rfl

/-- The entries are put one behind the other into the slots that are unused. -/
theorem fill_encode {raws : List RawEntry} (h : ∀ raw ∈ raws, form.Fits raw) {room : Nat}
    (hroom : slots raws ≤ room) (filled : List Entry) (offset : Nat) (rest : Bytes) :
    fill room filled.length ⟨⟨offset, raws.flatMap form.encode ++ rest⟩,
        ⟨(filled ++ List.replicate room Entry.unused).toArray⟩⟩ =
      fill (room - slots raws) (filled.length + slots raws)
        ⟨⟨offset + (raws.flatMap form.encode).length, rest⟩,
          ⟨(filled ++ raws.flatMap cells ++
            List.replicate (room - slots raws) Entry.unused).toArray⟩⟩ := by
  induction raws generalizing room filled offset with
  | nil =>
    rw [List.flatMap_nil, List.flatMap_nil, List.append_nil]
    rfl
  | cons raw raws ih =>
    have hwidth := raw.entry.width_pos
    rw [slots] at hroom ⊢
    obtain ⟨room, rfl⟩ := Nat.exists_eq_succ_of_ne_zero (show room ≠ 0 by omega)
    have hnext : filled.length + raw.entry.width = (filled ++ raw.cells).length := by
      rw [List.length_append, length_cells]
    have hraws := ih (fun raw hraw => h raw (List.mem_cons_of_mem _ hraw))
      (show slots raws ≤ room + 1 - raw.entry.width by omega) (filled ++ raw.cells)
      (offset + (form.encode raw).length)
    rw [List.flatMap_cons, List.append_assoc, fill_entry (h raw (List.mem_cons_self ..)),
      setIfInBounds_entry raw filled (by omega), hnext, hraws, ← hnext, List.flatMap_cons,
      List.length_append, List.append_assoc, List.append_assoc, Nat.sub_sub, Nat.add_assoc,
      Nat.add_assoc]
    simp only [List.append_assoc]

/-- The table is made anew for the slots that are counted. -/
theorem read_count {count : Nat} (hpos : 0 < count) (hcount : Form.count.Fits count)
    (offset : Nat) (rest : Bytes) (old : Pool) :
    read ⟨⟨offset, Form.count.encode count ++ rest⟩, old⟩ =
      fill (count - 1) 1 ⟨⟨offset + (Form.count.encode count).length, rest⟩,
        ⟨([Entry.unused] ++ List.replicate (count - 1) Entry.unused).toArray⟩⟩ := by
  have hnat : (UInt16.ofNat count).toNat = count := UInt16.toNat_ofNat_of_lt' hcount
  have hzero : UInt16.ofNat count ≠ 0 := fun hzero => by
    rw [← UInt16.toNat_inj, hnat] at hzero
    exact Nat.ne_of_gt hpos hzero
  have htable : Array.replicate count Entry.unused =
      ([Entry.unused] ++ List.replicate (count - 1) Entry.unused).toArray := by
    rw [← List.toArray_replicate, List.singleton_append, ← List.replicate_succ,
      Nat.sub_add_cancel hpos]
  have hread := field_gives (@Reader.Gives.count offset count hcount) rest old
  rw [read, EStateM.bind_of_ok hread]
  dsimp only
  rw [if_neg hzero, hnat, ← htable]
  rfl

/-! ### What is in the table -/

theorem length_flatMap_cells (raws : List RawEntry) : (raws.flatMap cells).length = slots raws := by
  induction raws with
  | nil => rfl
  | cons raw raws ih => rw [List.flatMap_cons, List.length_append, length_cells, ih, slots]

theorem getElem?_cells (raws : List RawEntry) (index : Nat) (h : index < raws.length) :
    (raws.flatMap cells)[slots (raws.take index)]? = some raws[index].entry := by
  induction raws generalizing index with
  | nil => exact absurd h (Nat.not_lt_zero index)
  | cons raw raws ih =>
    cases index with
    | zero => rfl
    | succ index =>
      rw [List.take_succ_cons, slots, List.flatMap_cons, ← length_cells,
        List.getElem?_append_right (Nat.le_add_right _ _), Nat.add_sub_cancel_left]
      exact ih index (Nat.lt_of_succ_lt_succ h)

/-- Behind a wide entry there is nothing: no entry is found at an index at which none begins. -/
theorem getElem?_cells_of_ne (raws : List RawEntry) (slot : Nat) (hslot : slot < slots raws)
    (hne : ∀ index < raws.length, slot ≠ slots (raws.take index)) :
    (raws.flatMap cells)[slot]? = some .unused := by
  induction raws generalizing slot with
  | nil => exact absurd hslot (Nat.not_lt_zero slot)
  | cons raw raws ih =>
    rw [slots] at hslot
    rw [List.flatMap_cons]
    rcases Nat.lt_or_ge slot raw.cells.length with hfirst | hlater
    · obtain ⟨slot, rfl⟩ := Nat.exists_eq_succ_of_ne_zero (hne 0 (Nat.succ_pos _))
      rw [List.getElem?_append_left hfirst, cells, List.getElem?_cons_succ, List.getElem?_replicate,
        if_pos]
      rw [length_cells] at hfirst
      omega
    · rw [List.getElem?_append_right hlater]
      rw [length_cells] at hlater ⊢
      refine ih _ (by omega) fun index hindex hsame => ?_
      refine hne (index + 1) (Nat.succ_lt_succ hindex) ?_
      rw [List.take_succ_cons, slots]
      omega

/-- What the entries are when all of them are put in: each is found at its own index, and all other
slots are unused. -/
theorem holds_cells {raws : List RawEntry} {count : Nat} (h : 1 + slots raws ≤ count) :
    Holds ⟨([Entry.unused] ++ raws.flatMap cells ++
      List.replicate (count - 1 - slots raws) Entry.unused).toArray⟩ count raws where
  size := by
    rw [size, List.size_toArray, List.length_append, List.length_append, length_flatMap_cells,
      List.length_replicate, List.length_singleton]
    omega
  entry index hindex := by
    have hentry := getElem?_cells raws index hindex
    have hlt := (List.getElem?_eq_some_iff.1 hentry).1
    rw [slotOf, List.getElem?_toArray, List.append_assoc, List.singleton_append, Nat.add_comm,
      List.getElem?_cons_succ, List.getElem?_append_left hlt, hentry]
  unused slot hslot hne := by
    rw [List.getElem?_toArray, List.append_assoc, List.singleton_append]
    cases slot with
    | zero => rfl
    | succ slot =>
      rw [List.getElem?_cons_succ]
      rcases Nat.lt_or_ge slot (slots raws) with hfilled | hleft
      · rw [List.getElem?_append_left (by rwa [length_flatMap_cells])]
        refine getElem?_cells_of_ne raws slot hfilled fun index hindex hsame => hne index hindex ?_
        rw [hsame, slotOf, Nat.add_comm]
      · rw [List.getElem?_append_right (by rwa [length_flatMap_cells]), length_flatMap_cells,
          List.getElem?_replicate, if_pos (by omega)]

/-- **Entries are read as they were written**, wherever they stand and whatever there was before:
the reading stops right behind them, or behind a zero if there are slots left, and the table holds
each of them in its slot and nothing else. -/
theorem read_encode {raws : List RawEntry} (hfits : ∀ raw ∈ raws, form.Fits raw)
    (hslots : slots raws ≤ 65534) (offset : Nat) (rest : Bytes) (old : Pool) :
    (∃ pool, read ⟨⟨offset, encode (1 + slots raws) raws ++ rest⟩, old⟩ =
        .ok () ⟨⟨offset + (encode (1 + slots raws) raws).length, rest⟩, pool⟩ ∧
      pool.Holds (1 + slots raws) raws) ∧
    ∀ count, 1 + slots raws < count → count ≤ 65535 →
      ∃ pool, read ⟨⟨offset, encode count raws ++ 0 :: rest⟩, old⟩ =
          .ok () ⟨⟨offset + (encode count raws).length + 1, rest⟩, pool⟩ ∧
        pool.Holds count raws := by
  have hall {count : Nat} (hcount : 1 + slots raws ≤ count) (hmost : count ≤ 65535)
      (rest : Bytes) : read ⟨⟨offset, encode count raws ++ rest⟩, old⟩ =
        fill (count - 1 - slots raws) (1 + slots raws)
          ⟨⟨offset + (encode count raws).length, rest⟩, ⟨([Entry.unused] ++ raws.flatMap cells ++
            List.replicate (count - 1 - slots raws) Entry.unused).toArray⟩⟩ := by
    have hfill := fill_encode hfits (show slots raws ≤ count - 1 by omega) [.unused]
      (offset + (Form.count.encode count).length) rest
    rw [encode, List.append_assoc, read_count (by omega) (Nat.lt_succ_of_le hmost)]
    refine hfill.trans ?_
    rw [List.length_append, Nat.add_assoc]
    rfl
  refine ⟨⟨_, (hall (Nat.le_refl _) (by omega) rest).trans ?_, holds_cells (Nat.le_refl _)⟩,
    fun count hcount hmost => ⟨_, (hall (Nat.le_of_lt hcount) hmost (0 :: rest)).trans ?_,
      holds_cells (Nat.le_of_lt hcount)⟩⟩
  · rw [show 1 + slots raws - 1 - slots raws = 0 by omega]
    rfl
  · obtain ⟨room, hroom⟩ := Nat.exists_eq_succ_of_ne_zero
      (show count - 1 - slots raws ≠ 0 by omega)
    rw [hroom, fill_succ]
    rfl

/-- Entries with a text that no byte is zero of, and with a wide one in the last slot. -/
def mixed : List RawEntry :=
  [.utf8 "p/\x00😀", .long (-1), .classInfo 1, .skipped .methodHandle [6, 0, 4], .double 0]

/-- These entries are read back from what they are written with, and fill the seven slots in front
of the eighth. If the table is said to go on to the twelfth slot, a byte of zero behind them ends it
all the same. -/
theorem read_encode_mixed :
    (∀ raw ∈ mixed, form.Fits raw) ∧ slots mixed = 7 ∧ (slots mixed ≤ 65534) ∧
      (∃ pool, read ⟨.ofBytes (encode 8 mixed), .empty⟩ =
          .ok () ⟨⟨(encode 8 mixed).length, []⟩, pool⟩ ∧ pool.Holds 8 mixed) ∧
      ∃ pool, read ⟨.ofBytes (encode 12 mixed ++ [0]), .empty⟩ =
          .ok () ⟨⟨(encode 12 mixed).length + 1, []⟩, pool⟩ ∧ pool.Holds 12 mixed := by
  have hfits : ∀ raw ∈ mixed, form.Fits raw := by decide
  have hslots : slots mixed ≤ 65534 := by decide
  obtain ⟨hexact, hmore⟩ := read_encode hfits hslots 0 [] .empty
  refine ⟨hfits, rfl, hslots, ?_, ?_⟩
  · rw [List.append_nil, Nat.zero_add] at hexact
    exact hexact
  · have hzero := hmore 12 (by decide) (by decide)
    rw [Nat.zero_add] at hzero
    exact hzero

end Pool

end ClassFile
