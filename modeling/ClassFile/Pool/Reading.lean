import ClassFile.Input
import ClassFile.Pool.Basic

/-!
# Reading the constant pool

A count, and then a tag and a body for each slot from slot one on. Wide constants take
two slots. A tag of zero ends the table early: what is left stays unused.

The table is made anew as soon as the count is known. What a pool held before shows
only when the count itself is missing or zero, and a table whose reading fails keeps
the entries that were read.
-/

namespace ClassFile

/-- The bytes that are left, and the table as far as it is filled. -/
structure Pool.Filling where
  input : Input
  pool : Pool

namespace Pool.Filling

/-- Reads fields while a table is filled. -/
def field {α : Type} (reader : Reader α) : EStateM Fault Filling α := fun state =>
  match reader state.input with
  | .ok value input => .ok value { state with input }
  | .error fault input => .error fault { state with input }

theorem field_eq_ok_iff {α : Type} {reader : Reader α} {s t : Filling} {value : α} :
    field reader s = .ok value t ↔
      ∃ rest, reader s.input = .ok value rest ∧ t = { s with input := rest } := by
  rw [field]
  constructor
  · intro h
    split at h
    · rename_i hread
      cases h
      exact ⟨_, hread, rfl⟩
    · cases h
  · rintro ⟨rest, hread, rfl⟩
    rw [hread]

/-- Puts an entry into a slot. -/
def store (slot : Nat) (entry : Entry) : EStateM Fault Filling Unit :=
  modify fun state =>
    { state with pool := ⟨state.pool.entries.setIfInBounds slot entry⟩ }

end Pool.Filling

/-- How many bytes follow the tag of an entry that is passed over. -/
def Entry.skippedWidth? (tag : UInt8) : Option Nat :=
  match tag.toNat with
  | 15 => some 3
  | 16 => some 2
  | 17 => some 4
  | 18 => some 4
  | 19 => some 2
  | 20 => some 2
  | _ => none

/-- The body of the entry that a tag announces, for the given slot. -/
def Entry.read (tag : UInt8) (slot : Nat) : Reader Entry := do
  match tag.toNat with
  | 1 => return .utf8 (← Input.text)
  | 2 => throw (.reservedTag slot)
  | 3 => return .integer (← Input.i4)
  | 4 => return .float (← Input.u4)
  | 5 => return .long (← Input.u8).toInt64
  | 6 => return .double (← Input.u8)
  | 7 => return .classInfo (← Input.u2) false
  | 8 => return .string (← Input.u2)
  | 9 => return .ref .field (← Input.u2) (← Input.u2)
  | 10 => return .ref .method (← Input.u2) (← Input.u2)
  | 11 => return .ref .interfaceMethod (← Input.u2) (← Input.u2)
  | 12 => return .nameAndType (← Input.u2) (← Input.u2)
  | _ =>
    match Entry.skippedWidth? tag with
    | some width =>
      Input.skip width
      return .skipped tag
    | none => throw (.unknownTag tag slot)

namespace Pool

open Filling in
/-- Fills the slots from `slot` on, of which `room` are left. -/
def fill : (room : Nat) → (slot : Nat) → EStateM Fault Filling Unit
  | 0, _ => pure ()
  | room + 1, slot => do
    let tag ← field Input.u1
    if tag = 0 then
      pure ()
    else
      let entry ← field (Entry.read tag slot)
      store slot entry
      if entry.width = 2 then
        match room with
        | 0 => pure ()
        | room + 1 => fill room (slot + 2)
      else fill room (slot + 1)

open Filling in
/-- After an entry the table goes on as many slots further as the entry is wide. -/
theorem fill_succ (room slot : Nat) : fill (room + 1) slot = (do
    let tag ← field Input.u1
    if tag = 0 then
      pure ()
    else
      let entry ← field (Entry.read tag slot)
      store slot entry
      fill (room + 1 - entry.width) (slot + entry.width)) := by
  have hnext (entry : Entry) : fill (room + 1 - entry.width) (slot + entry.width) =
      if entry.width = 2 then
        match room with
        | 0 => pure ()
        | room + 1 => fill room (slot + 2)
      else fill room (slot + 1) := by
    cases entry <;> cases room <;> rfl
  simp only [hnext]
  cases room <;> rfl

open Filling in
/-- Reads a pool from its count on. -/
def read : EStateM Fault Filling Unit := do
  let count ← field Input.u2
  if count = 0 then throw .emptyPool
  modify fun state => { state with pool := ⟨Array.replicate count.toNat .unused⟩ }
  fill (count.toNat - 1) 1

end Pool

end ClassFile
