import ClassFile.Guarded.Operations
import ClassFile.Proofs.Bounds
import ClassFile.Proofs.Reading

/-!
# The law of the cursor

Whatever is read from some bytes, in whatever order and after whatever failures, the position
and what is left add up to their length, and every reading does what it has to do at its
position (`ClassFile.Operation.performAll_law`). A cursor in memory does the same, and its
positions never leave the bytes, even if a length near the end of 64 bits is asked for.

The invariant of a sequence of readings is that the input is an end of the bytes
(`ClassFile.Input.EndOf`). A reading whose width is known is one `Input.take`, after which
nothing can fail; only a text goes on after it has taken something.
-/

namespace ClassFile

open Operation

/-! ### Ends of bytes -/

/-- The input is what is left of some bytes behind its offset. -/
structure Input.EndOf (data : Bytes) (input : Input) : Prop where
  rest_eq : input.rest = data.drop input.offset
  offset_le : input.offset ≤ data.length

namespace Input.EndOf

variable {data : Bytes} {input : Input} {n : Nat}

theorem ofBytes (data : Bytes) : (Input.ofBytes data).EndOf data := ⟨rfl, Nat.zero_le _⟩

/-- The position of a cursor and what is left behind it make up the data. -/
theorem offset_add_length (h : input.EndOf data) :
    input.offset + input.rest.length = data.length := by
  rw [h.rest_eq, List.length_drop, Nat.add_sub_cancel' h.offset_le]

/-- What is left behind a position. -/
theorem behind {pos : Nat} (h : pos ≤ data.length) :
    (⟨pos, data.drop pos⟩ : Input).EndOf data := ⟨rfl, h⟩

/-- Bytes are taken if there are enough of them: those from the position on, and then the position
is behind them. -/
theorem take_of_le (h : input.EndOf data) (hroom : input.offset + n ≤ data.length) :
    Input.take n input =
      .ok (piece data input.offset n) ⟨input.offset + n, data.drop (input.offset + n)⟩ := by
  have hlength := h.offset_add_length
  rw [Input.take_of_le (by omega), h.rest_eq, List.drop_drop]
  rfl

/-- If there are not enough then nothing is taken, and the fault says where, and how many were asked
for. -/
theorem take_of_lt (h : input.EndOf data) (hshort : data.length < input.offset + n) :
    Input.take n input = .error (.endOfInput input.offset n) input := by
  have hlength := h.offset_add_length
  exact Input.take_of_lt (by omega)

end Input.EndOf

/-- A piece within the data is as long as it should be. -/
theorem Operation.length_piece {data : Bytes} {pos n : Nat} (hroom : pos + n ≤ data.length) :
    (piece data pos n).length = n := by
  rw [piece, List.length_take_of_le]
  rw [List.length_drop]
  omega

/-- The bytes of a number are written again from it, whatever type holds the number. -/
theorem Bytes.bigEndian_ofNat {ν : Type} (width : Nat) {ofNat : Nat → ν} {toNat : ν → Nat}
    (hof : ∀ n < Nat.pow 256 width, toNat (ofNat n) = n) {bytes : Bytes}
    (h : bytes.length = width) : bigEndian width (toNat (ofNat bytes.number)) = bytes := by
  rw [hof _ (number_lt h), bigEndian_number h]

namespace Operation

/-! ### One reading -/

/-- A number of two bytes is written as the two bytes that it was read from. -/
theorem encode_u2 {bytes : Bytes} (h : bytes.length = 2) :
    Form.u2.encode (UInt16.ofNat bytes.number) = bytes :=
  Bytes.bigEndian_ofNat 2 (fun _ h => UInt16.toNat_ofNat_of_lt' h) h

/-- And one of four bytes as those four. -/
theorem encode_u4 {bytes : Bytes} (h : bytes.length = 4) :
    Form.u4.encode (UInt32.ofNat bytes.number) = bytes :=
  Bytes.bigEndian_ofNat 4 (fun _ h => UInt32.toNat_ofNat_of_lt' h) h

/-- A reading whose width is known takes that many bytes at once. -/
theorem exists_read_eq {op : Operation} {width : Nat} (h : op.width? = some width) :
    ∃ value : Bytes → op.Value, op.read = (do return value (← Input.take width)) ∧
      ∀ bytes, bytes.length = width → op.WrittenAs (value bytes) bytes := by
  cases op with
  | u1 =>
    cases h
    refine ⟨fun bytes => UInt8.ofNat bytes.number, rfl, fun bytes hbytes => ?_⟩
    obtain ⟨byte, rfl⟩ := List.length_eq_one_iff.1 hbytes
    change [byte] = [UInt8.ofNat (0 + byte.toNat)]
    rw [Nat.zero_add, UInt8.ofNat_toNat]
  | u2 =>
    cases h
    exact ⟨fun bytes => UInt16.ofNat bytes.number, rfl, fun _ hbytes => (encode_u2 hbytes).symm⟩
  | u4 =>
    cases h
    exact ⟨fun bytes => UInt32.ofNat bytes.number, rfl, fun _ hbytes => (encode_u4 hbytes).symm⟩
  | i4 =>
    cases h
    refine ⟨fun bytes => (UInt32.ofNat bytes.number).toInt32, ?_, fun bytes hbytes => ?_⟩
    · rw [read, Input.i4, Input.u4, bind_assoc]
      rfl
    · change bytes = Form.u4.encode (UInt32.ofNat bytes.number).toInt32.toUInt32
      rw [UInt32.toUInt32_toInt32, encode_u4 hbytes]
  | u8 =>
    cases h
    refine ⟨fun bytes => UInt64.ofNat bytes.number, rfl, fun _ hbytes => Eq.symm ?_⟩
    exact Bytes.bigEndian_ofNat 8 (fun _ h => UInt64.toNat_ofNat_of_lt' h) hbytes
  | skip n =>
    cases h
    exact ⟨fun _ => (), rfl, fun _ _ => trivial⟩
  | take n =>
    cases h
    refine ⟨fun bytes => bytes, ?_, fun _ _ => rfl⟩
    exact (bind_pure _).symm
  | text => cases h

/-- What comes of an operation that succeeds is its value, with the input behind it. -/
theorem perform_of_ok {op : Operation} {input rest : Input} {value : op.Value}
    (h : op.read input = .ok value rest) : op.perform input = (.ok value, rest) := by
  rw [perform, h]

/-- What comes of one that fails is the fault, and the input where it was. -/
theorem perform_of_error {op : Operation} {input rest : Input} {fault : Fault}
    (h : op.read input = .error fault rest) : op.perform input = (.error fault, rest) := by
  rw [perform, h]

/-- What a reading has to do is done, and an end of the bytes is left. -/
def Obeys (data : Bytes) (op : Operation) (input : Input) : Prop :=
  (op.perform input).2.EndOf data ∧
    Law data input.offset op (op.perform input).1 (op.perform input).2.offset

section

variable {data : Bytes} {input : Input} {op : Operation}

/-- An operation that takes a fixed number of bytes obeys the law: these bytes are its value, or
there are too few of them. -/
theorem obeys_of_width {width : Nat} (hwidth : op.width? = some width)
    (h : input.EndOf data) : op.Obeys data input := by
  obtain ⟨value, hread, hvalue⟩ := exists_read_eq hwidth
  rw [Obeys]
  rcases Nat.lt_or_ge data.length (input.offset + width) with hshort | hroom
  · have hfault : op.read input = .error (.endOfInput input.offset width) input := by
      rw [hread]
      exact EStateM.bind_of_error (h.take_of_lt hshort)
    rw [perform_of_error hfault]
    exact ⟨h, .short hwidth hshort⟩
  · have hok : op.read input = .ok (value (piece data input.offset width))
        ⟨input.offset + width, data.drop (input.offset + width)⟩ := by
      rw [hread]
      exact EStateM.bind_of_ok (h.take_of_le hroom)
    rw [perform_of_ok hok]
    exact ⟨.behind hroom, .read hwidth hroom (hvalue _ (length_piece hroom))⟩

/-- A text can fail at its length, at its bytes, and after both. -/
theorem obeys_text (h : input.EndOf data) : text.Obeys data input := by
  rw [Obeys]
  rcases Nat.lt_or_ge data.length (input.offset + 2) with hshort | hroom
  · have hlength : Input.u2 input = .error (.endOfInput input.offset 2) input :=
      EStateM.bind_of_error (h.take_of_lt hshort)
    have hfault : text.read input = .error (.endOfInput input.offset 2) input :=
      EStateM.bind_of_error hlength
    rw [perform_of_error hfault]
    exact ⟨h, .noLength hshort⟩
  obtain ⟨length, hlength⟩ : ∃ length, length = UInt16.ofNat (piece data input.offset 2).number :=
    ⟨_, rfl⟩
  have hwritten : piece data input.offset 2 = Form.u2.encode length := by
    rw [hlength, encode_u2 (length_piece hroom)]
  have hu2 : Input.u2 input = .ok length ⟨input.offset + 2, data.drop (input.offset + 2)⟩ := by
    rw [hlength]
    exact EStateM.bind_of_ok (h.take_of_le hroom)
  -- whatever comes of the bytes, the length has been taken
  have hbehind := Input.EndOf.behind hroom
  rcases Nat.lt_or_ge data.length (input.offset + 2 + length.toNat) with hshort | hroom'
  · have hfault : text.read input = .error (.endOfInput (input.offset + 2) length.toNat)
        ⟨input.offset + 2, data.drop (input.offset + 2)⟩ :=
      (EStateM.bind_of_ok hu2).trans (EStateM.bind_of_error (hbehind.take_of_lt hshort))
    rw [perform_of_error hfault]
    exact ⟨hbehind, .noBytes hwritten hroom hshort⟩
  · have hread : text.read input = _ :=
      (EStateM.bind_of_ok hu2).trans (EStateM.bind_of_ok (hbehind.take_of_le hroom'))
    cases hdecode : ModifiedUtf8.decode (piece data (input.offset + 2) length.toNat) with
    | ok string =>
      rw [hdecode] at hread
      rw [perform_of_ok hread]
      exact ⟨.behind hroom', .text hwritten hroom' hdecode⟩
    | error why =>
      rw [hdecode] at hread
      rw [perform_of_error hread]
      exact ⟨.behind hroom', .noText hwritten hroom' hdecode⟩

/-- **Every operation obeys the law**, from wherever it starts. Those that take a number of bytes
which they read themselves do so in two readings. -/
theorem obeys (op : Operation) (h : input.EndOf data) : op.Obeys data input := by
  cases hwidth : op.width? with
  | some width => exact obeys_of_width hwidth h
  | none =>
    cases op with
    | text => exact obeys_text h
    | u1 | u2 | u4 | i4 | u8 | skip | take => exact nomatch hwidth

end

/-! ### Sequences of readings -/

/-- Operations may follow each other after any failure: the input is an end of the same data
again. -/
theorem endOf_performAll {data : Bytes} {input : Input} (ops : List Operation)
    (h : input.EndOf data) : (performAll ops input).EndOf data := by
  induction ops generalizing input with
  | nil => exact h
  | cons op ops ih => exact ih (obeys op h).1

/-- Every reading is tracked by the one over a cursor. -/
theorem readGuarded_tracks (op : Operation) : Cursor.Tracks op.readGuarded op.read := by
  cases op with
  | u1 => exact .u1
  | u2 => exact .u2
  | u4 => exact .u4
  | i4 => exact .i4
  | u8 => exact .u8
  | skip n => exact .skip n.toNat
  | take n => exact .take n.toNat
  | text =>
    refine .bind .u2 fun length => .bind (.take length.toNat) fun bytes => ?_
    cases ModifiedUtf8.decode bytes with
    | ok string => exact .pure string
    | error why => exact .throw (.text why)

/-- The cursor in machine words does the same, and its position stays in the range of the data. -/
theorem performGuarded_eq {cursor : Cursor} (op : Operation) (h : cursor.InRange) :
    ∃ next : Cursor, next.InRange ∧ next.data = cursor.data ∧
      op.performGuarded cursor = some ((op.perform cursor.input).1, next) ∧
      next.input = (op.perform cursor.input).2 := by
  obtain ⟨next, hnext, hdata, hrun⟩ := readGuarded_tracks op cursor h
  refine ⟨next, hnext, hdata, ?_⟩
  rw [performGuarded, perform]
  cases hread : op.read cursor.input with
  | ok value rest =>
    rw [hread] at hrun
    exact hrun
  | error fault rest =>
    rw [hread] at hrun
    exact hrun

/-- And so it is with operations in a row, whatever they are. -/
theorem performAllGuarded_eq {cursor : Cursor} (ops : List Operation) (h : cursor.InRange) :
    ∃ next : Cursor, next.InRange ∧ next.data = cursor.data ∧
      performAllGuarded ops cursor = some next ∧ next.input = performAll ops cursor.input := by
  induction ops generalizing cursor with
  | nil => exact ⟨cursor, h, rfl, rfl, rfl⟩
  | cons op ops ih =>
    obtain ⟨moved, hmoved, hdata, hrun, hinput⟩ := performGuarded_eq op h
    obtain ⟨next, hnext, hdata', hrun', hinput'⟩ := ih hmoved
    refine ⟨next, hnext, hdata'.trans hdata, ?_, ?_⟩
    · rw [performAllGuarded, List.foldlM_cons, hrun]
      exact hrun'
    · rw [hinput', hinput]
      rfl

/-- The law of the cursor. After any readings, the input is an end of the bytes, so its offset
and the number of bytes left add up to the length of them all; and the next reading does what it
has to do at that offset, be it that it fails. If the length of the bytes is a number of 64 bits,
the same readings over a cursor crash nowhere, and leave it at the same position with the same
result. -/
theorem performAll_law (data : Bytes) (before : List Operation) (op : Operation) :
    let input := performAll before (.ofBytes data)
    let (outcome, next) := op.perform input
    input.rest = data.drop input.offset ∧
    input.offset + input.rest.length = data.length ∧
    Law data input.offset op outcome next.offset ∧
    (data.length < UInt64.size →
      ∃ cursor moved, performAllGuarded before (.ofBytes data) = some cursor ∧
        op.performGuarded cursor = some (outcome, moved) ∧
        cursor.data = data ∧ moved.data = data ∧
        cursor.pos = input.offset ∧ moved.pos = next.offset ∧
        cursor.pos + cursor.remaining = data.length ∧
        moved.pos + moved.remaining = data.length) := by
  have hinput := endOf_performAll before (.ofBytes data)
  obtain ⟨-, hlaw⟩ := obeys op hinput
  refine ⟨hinput.rest_eq, hinput.offset_add_length, hlaw, fun hlength => ?_⟩
  -- the cursor goes along with the input, and its position is the offset
  have hfirst : (Cursor.ofBytes data).InRange := ⟨Nat.zero_le _, hlength⟩
  obtain ⟨cursor, hcursor, hdata, hrun, hbehind⟩ := performAllGuarded_eq before hfirst
  obtain ⟨moved, hmoved, hdata', hrun', hbehind'⟩ := performGuarded_eq op hcursor
  have hstart : cursor.input = performAll before (.ofBytes data) := hbehind
  rw [hstart] at hrun' hbehind'
  have hpos : cursor.pos = (performAll before (.ofBytes data)).offset :=
    congrArg Input.offset hstart
  have hpos' : moved.pos = (op.perform (performAll before (.ofBytes data))).2.offset :=
    congrArg Input.offset hbehind'
  have hle := hcursor.pos_le
  have hle' := hmoved.pos_le
  have hsame : cursor.data = data := hdata
  have hsame' : moved.data = data := hdata'.trans hdata
  refine ⟨cursor, moved, hrun, hrun', hsame, hsame', hpos, hpos', ?_, ?_⟩
  · rw [Cursor.remaining, Nat.add_sub_cancel' hle, hsame]
  · rw [Cursor.remaining, Nat.add_sub_cancel' hle', hsame']

/-- A text whose bytes are missing, after a byte, a number that does not fit and a step that is
longer than any file. -/
theorem performAll_law_short_text :
    ∃ cursor moved : Cursor,
      performAllGuarded [.u1, .u4, .skip 0xFFFFFFFFFFFFFFFF] (.ofBytes [1, 0, 5, 0x41]) =
        some cursor ∧
      text.performGuarded cursor = some (.error (.endOfInput 3 5), moved) ∧
      cursor.pos = 1 ∧ moved.pos = 3 ∧ moved.pos + moved.remaining = 4 := by
  obtain ⟨-, -, -, hguarded⟩ :=
    performAll_law [1, 0, 5, 0x41] [.u1, .u4, .skip 0xFFFFFFFFFFFFFFFF] text
  obtain ⟨cursor, moved, hrun, hrun', -, -, hpos, hpos', -, hleft⟩ := hguarded (by decide)
  exact ⟨cursor, moved, hrun, hrun', hpos, hpos', hleft⟩

end Operation

end ClassFile
