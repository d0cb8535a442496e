import ClassFile.Guarded.Code
import ClassFile.Proofs.Composed
import ClassFile.Proofs.Splitting

/-!
# Positions stay in range

The guarded steps of a decoder, which end the program when a position is out of range or a
number too large, come to the same as the steps without bounds. So they crash nowhere.

A step over a cursor is compared with a reading of what lies behind the cursor
(`ClassFile.Cursor.Tracks`). The invariant is that the cursor stands within its bytes, of
which there are fewer than `UInt64.size`; taking bytes preserves it, because an end that lies
beyond the bytes is turned down before anything is cut out.

The slots of a pool are in range because the table is made as long as the count before it
is filled, and because references that are collected on the way leave its length alone. The
tables of switches fit because the numbers in them have 32 bits.
-/

namespace ClassFile

/-! ### Steps that cannot crash -/

namespace Guarded

variable {ε σ α β : Type} {s t : σ}

/-- A program without guards that ends in a value can be run where crashes are possible, and does
not crash. -/
theorem sound_of_ok {m : EStateM ε σ α} {a : α} (h : m s = .ok a t) :
    sound m s = some (.ok a, t) := by
  rw [sound, h]

theorem sound_of_error {m : EStateM ε σ α} {fault : ε} (h : m s = .error fault t) :
    sound m s = some (.error fault, t) := by
  rw [sound, h]

/-- Two ways to go on after a step that cannot crash come to the same if they do wherever the step
succeeds. So a guarded step may use what is known of the value before it. -/
theorem sound_bind_congr {m : EStateM ε σ α} {f : α → Guarded ε σ β} {g : α → EStateM ε σ β}
    (h : ∀ a t, m s = .ok a t → f a t = sound (g a) t) :
    (sound m >>= f) s = sound (m >>= g) s := by
  cases hm : m s with
  | ok a t =>
    rw [bind_of_ok (sound_of_ok hm), h a t hm, sound, sound, EStateM.bind_of_ok hm]
  | error fault t =>
    rw [bind_of_error (sound_of_error hm), sound_of_error (EStateM.bind_of_error hm)]

end Guarded

/-! ### Cursors -/

/-- A length that fits into a machine word is a machine word. It is the guard of every sum of
positions. -/
theorem word?_of_lt {n : Nat} (h : n < UInt64.size) : word? n = some n := if_pos h

namespace Cursor

/-- The cursor stands within its bytes, whose number is one of 64 bits. -/
structure InRange (cursor : Cursor) : Prop where
  pos_le : cursor.pos ≤ cursor.data.length
  length_lt : cursor.data.length < UInt64.size

/-- A step over a cursor comes to the same as a reading of what lies behind the cursor, and
does not crash. -/
def Tracks {α : Type} (m : Guarded Fault Cursor α) (reader : Reader α) : Prop :=
  ∀ cursor : Cursor, cursor.InRange → ∃ next : Cursor, next.InRange ∧ next.data = cursor.data ∧
    match reader cursor.input with
    | .ok value rest => m cursor = some (.ok value, next) ∧ next.input = rest
    | .error fault rest => m cursor = some (.error fault, next) ∧ next.input = rest

namespace Tracks

variable {α β : Type} {m : Guarded Fault Cursor α} {reader : Reader α}

theorem pure (a : α) : Tracks (Pure.pure a) (Pure.pure a) :=
  fun cursor h => ⟨cursor, h, rfl, rfl, rfl⟩

theorem throw (fault : Fault) :
    Tracks (MonadExcept.throw fault : Guarded Fault Cursor α) (MonadExcept.throw fault) :=
  fun cursor h => ⟨cursor, h, rfl, rfl, rfl⟩

/-- A value that is expected to be there is there. This is the guard of every access by index. -/
theorem expect {value? : Option α} {a : α} (h : value? = some a) :
    Tracks (Guarded.expect value?) (Pure.pure a) := by
  rw [h]
  exact pure a

/-- What follows a reading may use that it was read: how many bytes are left then, and of which
value it is. -/
theorem bind_of_read {f : α → Guarded Fault Cursor β} {g : α → Reader β} (hm : Tracks m reader)
    (hf : ∀ input a rest, reader input = .ok a rest → Tracks (f a) (g a)) :
    Tracks (m >>= f) (reader >>= g) := by
  intro cursor h
  obtain ⟨next, hnext, hdata, hrun⟩ := hm cursor h
  change ∃ last : Cursor, _ ∧ _ ∧ match EStateM.bind reader g cursor.input with
    | .ok value rest => (m >>= f) cursor = some (.ok value, last) ∧ last.input = rest
    | .error fault rest => (m >>= f) cursor = some (.error fault, last) ∧ last.input = rest
  rw [EStateM.bind]
  cases hread : reader cursor.input with
  | ok a rest =>
    rw [hread] at hrun
    obtain ⟨hok, rfl⟩ := hrun
    obtain ⟨last, hlast, hdata', hrun'⟩ := hf _ a _ hread next hnext
    refine ⟨last, hlast, hdata'.trans hdata, ?_⟩
    dsimp only
    rw [Guarded.bind_of_ok hok]
    exact hrun'
  | error fault rest =>
    rw [hread] at hrun
    obtain ⟨herror, rfl⟩ := hrun
    exact ⟨next, hnext, hdata, Guarded.bind_of_error herror, rfl⟩

theorem bind {f : α → Guarded Fault Cursor β} {g : α → Reader β} (hm : Tracks m reader)
    (hf : ∀ a, Tracks (f a) (g a)) : Tracks (m >>= f) (reader >>= g) :=
  hm.bind_of_read fun _ a _ _ => hf a

/-- Both programs ask the same condition and go on in the same branch, so the branches are compared
one by one. -/
theorem ite {p : Prop} [Decidable p] {m' : Guarded Fault Cursor α} {reader' : Reader α}
    (h : Tracks m reader) (h' : Tracks m' reader') :
    Tracks (if p then m else m') (if p then reader else reader') := by
  split
  · exact h
  · exact h'

/-- To take some bytes at a cursor is to take them from the front of a list. The position and the
length are added in a machine word, and the sum does not overflow, for a file is not that long. -/
theorem take (n : Nat) : Tracks (Cursor.take n) (Input.take n) := by
  rintro ⟨data, pos⟩ ⟨hpos, hlength⟩
  dsimp only at hpos hlength
  rcases Nat.lt_or_ge (data.length - pos) n with hshort | hroom
  · refine ⟨⟨data, pos⟩, ⟨hpos, hlength⟩, rfl, ?_⟩
    have hrest : (Cursor.input ⟨data, pos⟩).rest.length < n := by
      rw [Cursor.input, List.length_drop]
      exact hshort
    rw [Input.take_of_lt hrest]
    refine ⟨?_, rfl⟩
    have hend : Cursor.stop? ⟨data, pos⟩ n = none := by
      rw [stop?, word?]
      split
      · exact Option.filter_some_neg (by simpa using by omega)
      · rfl
    change takeUpTo ⟨data, pos⟩ n (Cursor.stop? ⟨data, pos⟩ n) ⟨data, pos⟩ = _
    rw [hend]
    rfl
  · refine ⟨⟨data, pos + n⟩, ⟨by dsimp only; omega, hlength⟩, rfl, ?_⟩
    have hrest : n ≤ (Cursor.input ⟨data, pos⟩).rest.length := by
      rw [Cursor.input, List.length_drop]
      exact hroom
    rw [Input.take_of_le hrest]
    have hend : Cursor.stop? ⟨data, pos⟩ n = some (pos + n) := by
      rw [stop?, word?_of_lt (show pos + n < UInt64.size by omega)]
      exact Option.filter_some_pos (by simpa using by omega)
    have hcut : slice? data pos (pos + n) = some ((data.drop pos).take n) := by
      rw [slice?, if_pos (by omega), Nat.add_sub_cancel_left]
    constructor
    · change takeUpTo ⟨data, pos⟩ n (Cursor.stop? ⟨data, pos⟩ n) ⟨data, pos⟩ = _
      rw [hend, takeUpTo, hcut]
      rfl
    · rw [Cursor.input, Cursor.input, List.drop_drop]

/-- Bytes that are fetched one by one are those of the part of the file, since none of the indices
is beyond its end. -/
theorem mapM_expect (bytes : Bytes) (start n : Nat) (h : start + n = bytes.length) :
    ((List.range' start n).mapM fun i => Guarded.expect bytes[i]? : Guarded Fault Cursor Bytes) =
      Pure.pure (bytes.drop start) := by
  induction n generalizing start with
  | zero =>
    rw [List.drop_of_length_le (by omega)]
    rfl
  | succ n ih =>
    have hbyte : bytes[start]? = some bytes[start] := List.getElem?_eq_getElem (by omega)
    rw [List.range'_succ, List.mapM_cons, hbyte, Guarded.expect, pure_bind,
      ih (start + 1) (by omega), pure_bind, ← List.drop_eq_getElem_cons]

/-- Each of the bytes that were taken is there, so a number is made of them without a crash. -/
theorem number (width : Nat) (f : Nat → α) :
    Tracks (do return f (← Cursor.number width)) (do return f (← Input.take width).number) := by
  rw [Cursor.number, bind_assoc]
  refine (take width).bind_of_read fun input bytes rest h => ?_
  have hlength : bytes.length = width := by
    rw [Input.take] at h
    split at h
    · rename_i hroom
      cases h
      exact List.length_take_of_le (Bytes.hasAtLeast_iff.1 hroom)
    · cases h
  have hdigits := mapM_expect bytes 0 width (by omega)
  rw [← List.range_eq_range', List.drop_zero] at hdigits
  rw [hdigits, pure_bind, pure_bind]
  exact pure _

theorem skip (n : Nat) : Tracks (Cursor.skip n) (Input.skip n) := (take n).bind fun _ => pure ()

theorem u1 : Tracks Cursor.u1 Input.u1 := number 1 _

theorem u2 : Tracks Cursor.u2 Input.u2 := number 2 _

theorem u4 : Tracks Cursor.u4 Input.u4 := number 4 _

theorem i4 : Tracks Cursor.i4 Input.i4 := u4.bind fun _ => pure _

theorem u8 : Tracks Cursor.u8 Input.u8 := number 8 _

end Tracks

end Cursor

/-! ### Instructions -/

namespace Instruction

open Cursor

/-- A number within the range of a machine word with a sign is one. The sizes of jump tables are
computed with this guard. -/
theorem signedWord?_of_lt {n : Int} (hlow : -0x8000000000000000 ≤ n)
    (hhigh : n < 0x8000000000000000) :
    signedWord? n = some n := if_pos ⟨hlow, hhigh⟩

/-- The padding is computed from where the cursor stands. It is between zero and three bytes, in
machine words as in natural numbers. -/
theorem align_tracks : Tracks alignGuarded align := by
  intro cursor h
  have hleft : (if cursor.pos % 4 ≤ 4 then some (4 - cursor.pos % 4) else none) =
      some (4 - cursor.pos % 4) := if_pos (by omega)
  obtain ⟨next, hnext, hdata, hrun⟩ := Tracks.skip ((4 - cursor.pos % 4) % 4) cursor h
  refine ⟨next, hnext, hdata, ?_⟩
  have halign : alignGuarded cursor = Cursor.skip ((4 - cursor.pos % 4) % 4) cursor := by
    change (Guarded.expect (if cursor.pos % 4 ≤ 4 then some (4 - cursor.pos % 4) else none) >>=
      fun left => Cursor.skip (left % 4)) cursor = _
    rw [hleft]
    rfl
  rw [halign]
  exact hrun

/-- The size of a jump table is computed with a sign, from two bounds of four bytes each, so it
cannot overflow. -/
theorem jumpTableSize_tracks (low high : Int32) :
    Tracks (jumpTableSizeGuarded low high) (checked (jumpTableSize low high)) := by
  have hlow := low.toInt_lt
  have hlow' := low.le_toInt
  have hhigh := high.toInt_lt
  have hhigh' := high.le_toInt
  have hsize : UInt64.size = 0x10000000000000000 := rfl
  rw [jumpTableSizeGuarded, jumpTableSize, signedWord?_of_lt (by omega) (by omega),
    Guarded.expect, pure_bind, signedWord?_of_lt (by omega) (by omega), Guarded.expect, pure_bind]
  split
  · exact .throw _
  · exact .expect (word?_of_lt (by omega))

theorem pairTableSize_tracks (pairs : Int32) :
    Tracks (pairTableSizeGuarded pairs) (checked (pairTableSize pairs)) := by
  have hpairs := pairs.toInt_lt
  have hsize : UInt64.size = 0x10000000000000000 := rfl
  rw [pairTableSizeGuarded, pairTableSize]
  split
  · exact .throw _
  · exact .expect (word?_of_lt (by omega))

/-- Every opcode has an entry in the table of operand widths, which has 256 of them. -/
theorem operandWidths_get (opcode : UInt8) :
    operandWidths[opcode.toNat]? = some (Opcode.operandWidth opcode) := by
  have hopcode : opcode.toNat < operandWidths.size := by
    rw [operandWidths, Array.size_ofFn]
    exact opcode.toNat_lt
  rw [Array.getElem?_eq_getElem hopcode]
  simp only [operandWidths, Array.getElem_ofFn, UInt8.ofNat_toNat]

/-- An instruction is read over a cursor as it is read from the front of a list. All its sizes are
computed with guards, and no guard fails. -/
theorem read_tracks : Tracks readGuarded read := by
  refine .bind .u1 fun opcode => ?_
  refine .ite (.bind .u1 fun _ => .pure _) (.ite (.bind .u2 fun _ => .pure _) ?_)
  refine .ite (.bind .u2 fun _ => .pure _) (.ite (.bind .u2 fun _ => .pure _) ?_)
  refine .ite (.bind .u2 fun _ => .pure _) (.ite (.bind .u2 fun _ => .pure _) ?_)
  refine .ite (.bind .u2 fun _ => .pure _) (.ite ?wide (.ite ?tableSwitch (.ite ?pairs ?fixed)))
  case wide => exact .bind .u1 fun _ => .bind (.skip 2) fun _ => .pure _
  case tableSwitch =>
    refine .bind align_tracks fun _ => .bind .i4 fun _ => .bind .i4 fun low => ?_
    exact .bind .i4 fun high => .bind (jumpTableSize_tracks low high) fun _ => .pure _
  case pairs =>
    refine .bind align_tracks fun _ => .bind .i4 fun _ => .bind .i4 fun pairs => ?_
    exact .bind (pairTableSize_tracks pairs) fun _ => .pure _
  case fixed =>
    rw [operandWidths_get]
    exact .pure _

end Instruction

/-! ### Walks -/

/-- A reading that succeeds takes at least `n` bytes. -/
def Reader.Takes (n : Nat) {α : Type} (reader : Reader α) : Prop :=
  ∀ input a rest, reader input = .ok a rest → rest.rest.length + n ≤ input.rest.length

namespace Reader.Takes

variable {n : Nat} {α β : Type} {reader : Reader α}

theorem pure (a : α) : Takes 0 (Pure.pure a : Reader α) := by
  intro input b rest h
  cases h
  exact Nat.le_refl _

/-- A reading takes at least what its first part takes. -/
theorem bind {f : α → Reader β} (h : Takes n reader) (hf : ∀ a, Takes 0 (f a)) :
    Takes n (reader >>= f) := by
  intro input b rest hrun
  obtain ⟨a, middle, hread, hlast⟩ := EStateM.ok_of_bind hrun
  have hfirst := h input a middle hread
  have hrest := hf a middle b rest hlast
  omega

theorem any (h : Takes n reader) : Takes 0 reader := fun input a rest hrun =>
  Nat.le_trans (Nat.add_le_add_left (Nat.zero_le n) _) (h input a rest hrun)

theorem take (n : Nat) : Takes n (Input.take n) := by
  intro input bytes rest h
  rw [Input.take] at h
  split at h
  · rename_i hroom
    cases h
    refine Nat.le_of_eq ?_
    rw [List.length_drop, Nat.sub_add_cancel (Bytes.hasAtLeast_iff.1 hroom)]
  · cases h

/-- What is read is not put back. So it is shown of all readers by how they are composed. -/
theorem composed : Reader.Composed fun m => Takes 0 m where
  pure := pure
  throw _ := fun _ _ _ hrun => nomatch hrun
  bind := bind
  take n := (take n).any

end Reader.Takes

/-- Every instruction has an opcode, and so the bytes that are left become fewer with each
instruction. -/
theorem Instruction.read_takes : Instruction.read.Takes 1 := by
  have halign : Instruction.align.Takes 0 := fun input => Reader.Takes.composed.skip _ input
  obtain ⟨rest, hread, hrest⟩ := Reader.Takes.composed.operands halign
  rw [hread]
  exact ((Reader.Takes.take 1).bind fun _ => .pure _).bind hrest

namespace Handlers

variable {σ : Type} (handlers : Handlers σ) (targets : Targets)

/-- What is left of the input is the file without what stands before the cursor. -/
theorem length_input (cursor : Cursor) :
    cursor.input.rest.length = cursor.data.length - cursor.pos := List.length_drop

theorem walkBehind_done (fuel : Nat) (last : Option UInt16) {cursor : Cursor}
    (hpos : ¬ cursor.pos < cursor.data.length) :
    handlers.walkBehind targets last cursor =
      Guarded.sound (handlers.walkFrom targets fuel last cursor.input) := by
  have hlength := length_input cursor
  have hnil : cursor.input.rest = [] := List.eq_nil_of_length_eq_zero (by omega)
  rw [walkBehind, if_neg hpos]
  cases fuel with
  | zero => rfl
  | succ fuel =>
    rw [walkFrom, hnil]
    rfl

/-- The walk over a cursor comes to an end with the bytes, and does the same as the walk over a
list, which is given as much fuel as there are bytes. By induction on the fuel, each instruction
takes some. -/
theorem walkBehind_eq (fuel : Nat) (last : Option UInt16) {cursor : Cursor}
    (h : cursor.InRange) (hfuel : cursor.input.rest.length ≤ fuel) (s : σ) :
    handlers.walkBehind targets last cursor s =
      Guarded.sound (handlers.walkFrom targets fuel last cursor.input) s := by
  induction fuel generalizing last cursor s with
  | zero =>
    rw [length_input] at hfuel
    rw [handlers.walkBehind_done targets 0 last (by omega)]
  | succ fuel ih =>
    have hlength := length_input cursor
    by_cases hpos : cursor.pos < cursor.data.length
    · obtain ⟨operands, hoperands, -, hread⟩ := Instruction.read_tracks cursor h
      have hsome : cursor.input.rest.isEmpty = false := by
        rw [List.isEmpty_eq_false_iff, ← List.length_pos_iff]
        omega
      rw [walkBehind, if_pos hpos, walkFrom, hsome, if_neg Bool.false_ne_true]
      cases hrun : Instruction.read cursor.input with
      | error fault rest =>
        rw [hrun] at hread
        rw [hread.1]
        rfl
      | ok instruction rest =>
        rw [hrun] at hread
        obtain ⟨hok, rfl⟩ := hread
        -- an instruction takes a byte at least, which pays for the fuel
        have hshorter := Instruction.read_takes _ _ _ hrun
        rw [hok]
        refine Guarded.sound_bind_congr fun last t _ => ?_
        obtain ⟨next, hnext, -, hskip⟩ := Cursor.Tracks.skip instruction.trailing operands hoperands
        cases hrest : Input.skip instruction.trailing operands.input with
        | error fault rest =>
          rw [hrest] at hskip
          rw [hskip.1]
          rfl
        | ok _ rest =>
          rw [hrest] at hskip
          obtain ⟨hok, rfl⟩ := hskip
          have hshorter' := Reader.Takes.composed.skip _ _ _ _ hrest
          rw [hok]
          exact ih last hnext (by omega) t
    · rw [handlers.walkBehind_done targets _ last hpos]

end Handlers

/-! ### Texts and names -/

/-- A text is decoded byte by byte as it is decoded from the front of a list. No index is out of
range, and each step leaves fewer bytes. -/
theorem ModifiedUtf8.unitsFrom_eq (bytes : Bytes) (pos : Nat) :
    unitsFrom bytes pos = Guarded.answer (units (bytes.drop pos)) := by
  induction hn : bytes.length - pos using Nat.strongRecOn generalizing pos with
  | ind n ih =>
    have hbyte (n : Nat) : bytes[pos + n]? = (bytes.drop pos)[n]? := List.getElem?_drop.symm
    have hdrop (n : Nat) : bytes.drop (pos + n) = (bytes.drop pos).drop n := List.drop_drop.symm
    -- what is done behind a unit of `m` bytes, which is no longer than the rest
    have hnext (m : Nat) (unit : UInt16) (h : pos < bytes.length) (hm : 0 < m) :
        (do return unit :: (← unitsFrom bytes (pos + m)) : Guarded TextFault Unit _) =
          Guarded.answer (do return unit :: (← units ((bytes.drop pos).drop m))) := by
      rw [ih _ (by omega) (pos + m) rfl, hdrop]
      cases units ((bytes.drop pos).drop m) <;> rfl
    rw [unitsFrom]
    cases hrest : bytes.drop pos with
    | nil =>
      rw [if_neg (Nat.not_lt.2 (List.drop_eq_nil_iff.1 hrest)), units]
      rfl
    | cons a rest =>
      have hpos : pos < bytes.length := by
        refine Nat.lt_of_not_le fun hle => ?_
        rw [List.drop_of_length_le hle] at hrest
        exact nomatch hrest
      have hhead : bytes[pos]? = some a := by
        rw [← Nat.add_zero pos, hbyte, hrest]
        rfl
      rw [hrest] at hnext hbyte
      -- from here on both look at the same bits of the first byte
      rw [if_pos hpos, hhead, Guarded.expect, pure_bind, hbyte, hbyte, units.eq_def]
      dsimp only
      split
      · exact hnext 1 _ hpos Nat.one_pos
      split
      · cases rest with
        | nil => rfl
        | cons b rest =>
          dsimp only [List.getElem?_cons_succ, List.getElem?_cons_zero]
          split
          · exact hnext 2 _ hpos Nat.two_pos
          · rfl
      split
      · rcases rest with - | ⟨b, - | ⟨c, rest⟩⟩
        · rfl
        · rfl
        · dsimp only [List.getElem?_cons_succ, List.getElem?_cons_zero]
          split
          · exact hnext 3 _ hpos (by decide)
          · rfl
      · rfl

/-- The package of a type is cut out between characters: the slash before which it ends is a plain
byte. -/
theorem Package.ofTypeByPosition_eq (type : TypeName) :
    ofTypeByPosition type = some (ofType type) := by
  rw [ofTypeByPosition, ofType]
  split
  · rfl
  generalize (type.element?.getD type.binary).toList = element
  rw [Signature.rfind?]
  by_cases hslash : '/' ∈ element
  · obtain ⟨back, -, helement⟩ := eq_beforeSlash_append hslash
    have hstart : Signature.Before element 0 (beforeSlash element ++ '/' :: back) := by
      rw [← helement]
      exact Signature.Before.start element
    have hcut := Signature.slice?_append hstart
    rw [Nat.zero_add] at hcut
    rw [if_pos hslash]
    change (Signature.slice? element 0 (Signature.utf8 (beforeSlash element)).length).bind _ = _
    rw [hcut]
    rfl
  · rw [if_neg hslash, beforeSlash_of_not_mem hslash]

/-! ### The slots of the pool -/

namespace Pool

open Filling

theorem pool_of_field {α : Type} {reader : Reader α} {s t : Filling} {a : α}
    (h : field reader s = .ok a t) : t.pool = s.pool := by
  obtain ⟨rest, -, rfl⟩ := field_eq_ok_iff.1 h
  rfl

/-- Filling a slot does not change how many slots there are. -/
theorem size_of_store {slot : Nat} {entry : Entry} {s t : Filling} {u : Unit}
    (h : store slot entry s = .ok u t) : t.pool.size = s.pool.size := by
  cases h
  exact Array.size_setIfInBounds

/-- The slots from `slot` on are filled within a table of the given length. An entry that takes two
slots may end behind the last one, but it is put into the first of its slots. -/
theorem fillGuarded_eq {count : Nat} (room slot : Nat) (hroom : count - slot = room)
    {s : Filling} (hsize : s.pool.size = count) :
    fillGuarded count slot s = Guarded.sound (fill room slot) s := by
  induction room using Nat.strongRecOn generalizing slot s with
  | ind room ih =>
    rw [fillGuarded]
    cases room with
    | zero =>
      rw [if_neg (by omega)]
      rfl
    | succ room =>
      rw [if_pos (by omega), fill_succ]
      refine Guarded.sound_bind_congr fun tag s' htag => ?_
      have hsize' : s'.pool.size = count := by rw [pool_of_field htag, hsize]
      split
      · rfl
      refine Guarded.sound_bind_congr fun entry t hentry => ?_
      have hslot : slot < t.pool.size := by
        rw [pool_of_field hentry, hsize']
        omega
      have hstore :
          (storeGuarded slot entry >>= fun _ => fillGuarded count (slot + entry.width)) t =
            (Guarded.sound (store slot entry) >>= fun _ =>
              fillGuarded count (slot + entry.width)) t := by
        change (storeGuarded slot entry t).bind _ = _
        rw [storeGuarded, if_pos hslot]
        rfl
      rw [hstore]
      refine Guarded.sound_bind_congr fun _ u hput => ?_
      have hwidth := entry.width_pos
      refine ih _ (by omega) _ (by omega) ?_
      rw [size_of_store hput, pool_of_field hentry, hsize']

/-- Every entry is put into a slot of the table. So reading a pool does not crash, whatever its
bytes are. -/
theorem readGuarded_eq : readGuarded = Guarded.sound read := by
  funext s
  refine Guarded.sound_bind_congr fun count t _ => ?_
  dsimp only
  split
  · rfl
  · change fillGuarded count.toNat 1 _ = Guarded.sound (fill (count.toNat - 1) 1) _
    exact fillGuarded_eq _ 1 rfl (Array.size_replicate ..)

end Pool

end ClassFile
