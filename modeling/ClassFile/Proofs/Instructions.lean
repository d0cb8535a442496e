import ClassFile.Layout.Instruction
import ClassFile.Proofs.Bounds
import ClassFile.Proofs.Idiom
import ClassFile.Proofs.Reading

/-!
# Code is read instruction by instruction

A walk through instructions that are written one behind the other acts on these and no others, for
each of them is read up to its last byte (`ClassFile.RawInstruction.rowFrom_flatMap`); the induction
goes along the instructions, with the offset at which the next one stands. Handlers that accept all
that they are asked are asked for just what the instructions name
(`ClassFile.Handlers.Accepting.mentions_calls`), so the classes and methods in the calls of a walk
are those that are written, in their order (`ClassFile.Handlers.walk_encode`).

Code that is cut off anywhere is the same as far as it goes. An instruction can be read with more
bytes behind it as without them (`ClassFile.Reader.Myopic`), though not at another offset.
-/

namespace ClassFile

/-! ### Single instructions -/

/-- What an instruction asks for, if it is acted upon. -/
def Action.mention? : Action → Option Call
  | .load index | .type index => some (.constant index)
  | .invoke index | .invokeStatic index => some (.method index)
  | .widened | .other => none

namespace RawInstruction

/-- What an instruction means to a walk. -/
def action : RawInstruction → Action
  | fixed opcode operands =>
    let index := UInt16.ofNat (Bytes.number (operands.take 2))
    if opcode = Opcode.ldc ∨ opcode = Opcode.ldcWide then .load index
    else if opcode ∈ Opcode.ofConstants then .type index
    else if opcode = Opcode.invokeStatic then .invokeStatic index
    else if opcode ∈ Opcode.ofMethods then .invoke index
    else .other
  | widened _ _ => .widened
  | tableSwitch _ _ _ _ _ | lookupSwitch _ _ _ => .other

theorem mention?_action (raw : RawInstruction) : raw.action.mention? = raw.mention? := by
  cases raw with
  | fixed opcode operands =>
    by_cases hldc : opcode = Opcode.ldc
    · subst hldc
      rfl
    by_cases hwide : opcode = Opcode.ldcWide
    · subst hwide
      rfl
    by_cases hstatic : opcode = Opcode.invokeStatic
    · subst hstatic
      rfl
    simp only [action, mention?, hldc, hwide, hstatic, or_self, if_false]
    split
    · rfl
    split <;> rfl
  | widened | tableSwitch | lookupSwitch => rfl

end RawInstruction

namespace Instruction

open Reader.Gives

variable {offset : Nat}

theorem align_gives {padding : Bytes} (h : RawInstruction.Pads offset padding) :
    align.Gives (offset + 1) padding () := by
  obtain ⟨hlength, hoffset⟩ := h
  exact fun rest => skip (by dsimp only; omega) rest

/-- The operands of a table switch are read before it is known whether its bounds are right. -/
theorem read_tableHeader {padding : Bytes} (h : RawInstruction.Pads offset padding)
    (otherwise low high : Int32) (rest : Bytes) :
    read ⟨offset, RawInstruction.tableHeader padding otherwise low high ++ rest⟩ =
      (do return ⟨.other, ← checked (jumpTableSize low high)⟩ : Reader Instruction)
        ⟨offset + (RawInstruction.tableHeader padding otherwise low high).length, rest⟩ := by
  have hbytes : RawInstruction.tableHeader padding otherwise low high ++ rest =
      [Opcode.tableSwitch] ++ (padding ++ (Form.i4.encode otherwise ++
        (Form.i4.encode low ++ (Form.i4.encode high ++ rest)))) := by
    simp only [RawInstruction.tableHeader, List.cons_append, List.nil_append, List.append_assoc]
  have hoffset : offset + (RawInstruction.tableHeader padding otherwise low high).length =
      offset + 1 + padding.length + 4 + 4 + 4 := by
    simp only [RawInstruction.tableHeader, List.length_cons, List.length_append,
      Form.length_i4]
    omega
  rw [hbytes, hoffset, read]
  refine ((u1 Opcode.tableSwitch).bind_eq _).trans ?_
  refine ((align_gives h).bind_eq _).trans ?_
  refine ((i4 otherwise).bind_eq _).trans ?_
  refine ((i4 low).bind_eq _).trans ?_
  exact (i4 high).bind_eq rest

theorem read_lookupSwitch {padding : Bytes} (h : RawInstruction.Pads offset padding)
    (otherwise : Int32) {pairs : Nat} (hpairs : pairs < 0x80000000) :
    read.Gives offset (Opcode.lookupSwitch :: (padding ++ (Form.i4.encode otherwise ++
      Form.i4.encode (Int32.ofNat pairs)))) ⟨.other, pairs * 8⟩ := by
  have hsize : pairTableSize (Int32.ofNat pairs) = .ok (pairs * 8) := by
    rw [pairTableSize, Int32.toInt_ofNat_of_lt hpairs, if_neg (by omega), Int.toNat_natCast]
  rw [read]
  refine (u1 Opcode.lookupSwitch).bind ((align_gives h).bind ((i4 otherwise).bind ?_))
  refine (i4 (Int32.ofNat pairs)).last ?_
  rw [hsize]
  exact pure _

theorem read_widened {opcode : UInt8} {operands : Bytes} (h : 2 ≤ operands.length) :
    read.Gives offset (Opcode.wide :: opcode :: operands.take 2)
      ⟨.widened, if opcode = Opcode.iinc then 2 else 0⟩ := by
  rw [read]
  refine (u1 Opcode.wide).bind ((u1 opcode).bind ?_)
  exact (skip (List.length_take_of_le h)).last (pure _)

/-- The one instruction whose index is a single byte. -/
theorem read_ldc (index : UInt8) : read.Gives offset [Opcode.ldc, index]
    ⟨(RawInstruction.fixed Opcode.ldc [index]).action, 0⟩ := by
  have hbyte : UInt16.ofNat (Bytes.number [index]) = index.toUInt16 := by
    rw [show Bytes.number [index] = index.toNat from Nat.zero_add _]
    exact UInt16.ofNat_uInt8ToNat index
  change read.Gives offset [Opcode.ldc, index] ⟨.load (.ofNat (Bytes.number [index])), 0⟩
  rw [hbyte]
  exact (u1 Opcode.ldc).bind (u1 index).map

/-- An index of two bytes is read, and what stands behind it is left. -/
theorem read_indexed {opcode : UInt8} {operands : Bytes}
    (hopcode : opcode ∈ Opcode.ofConstants ∨ opcode ∈ Opcode.ofMethods) (hldc : opcode ≠ Opcode.ldc)
    (hwidth : operands.length = Opcode.operandWidth opcode) :
    read.Gives offset (opcode :: operands.take 2)
      ⟨(RawInstruction.fixed opcode operands).action, (operands.drop 2).length⟩ := by
  rw [← List.mem_append] at hopcode
  simp only [Opcode.ofConstants, Opcode.ofMethods, List.cons_append, List.nil_append, List.mem_cons,
    List.not_mem_nil, or_false, hldc, false_or] at hopcode
  have hlength : 2 ≤ operands.length := by
    rw [hwidth]
    rcases hopcode with rfl | rfl | rfl | rfl | rfl | rfl | rfl | rfl | rfl | rfl <;> decide
  have hindex : Input.u2.Gives (offset + 1) (operands.take 2)
      (UInt16.ofNat (Bytes.number (operands.take 2))) :=
    twoBytes (List.length_take_of_le hlength)
  rw [List.length_drop, hwidth]
  rcases hopcode with rfl | rfl | rfl | rfl | rfl | rfl | rfl | rfl | rfl | rfl
  all_goals exact (u1 _).bind hindex.map

/-- All operands are left where there is no index among them. -/
theorem read_plain {opcode : UInt8} (operands : Bytes) (hconstant : opcode ∉ Opcode.ofConstants)
    (hmethod : opcode ∉ Opcode.ofMethods) (hopcode : opcode ∉ Opcode.ofVariableWidth) :
    read.Gives offset [opcode]
      ⟨(RawInstruction.fixed opcode operands).action, Opcode.operandWidth opcode⟩ := by
  have haction : (RawInstruction.fixed opcode operands).action = .other := by
    have hldc : ¬(opcode = Opcode.ldc ∨ opcode = Opcode.ldcWide) := by
      rintro (rfl | rfl)
      all_goals exact hconstant (by decide)
    have hstatic : opcode ≠ Opcode.invokeStatic := by
      rintro rfl
      exact hmethod (by decide)
    simp only [RawInstruction.action, hldc, hconstant, hstatic, hmethod, if_false]
  rw [haction, read]
  refine (u1 opcode).bind ?_
  simp only [Opcode.ofConstants, Opcode.ofMethods, Opcode.ofVariableWidth, List.mem_cons,
    List.not_mem_nil, or_false, not_or] at hconstant hmethod hopcode
  simp only [hconstant, hmethod, hopcode, or_self, if_false]
  exact pure _

/-- An instruction with operands of a fixed width is read up to the index in it, if there is one. -/
theorem read_fixed {opcode : UInt8} {operands : Bytes} (hopcode : opcode ∉ Opcode.ofVariableWidth)
    (hwidth : operands.length = Opcode.operandWidth opcode) :
    ∃ front back, operands = front ++ back ∧ read.Gives offset (opcode :: front)
      ⟨(RawInstruction.fixed opcode operands).action, back.length⟩ := by
  by_cases hldc : opcode = Opcode.ldc
  · subst hldc
    obtain ⟨index, rfl⟩ := List.length_eq_one_iff.1 hwidth
    exact ⟨[index], [], rfl, read_ldc index⟩
  by_cases hindexed : opcode ∈ Opcode.ofConstants ∨ opcode ∈ Opcode.ofMethods
  · exact ⟨operands.take 2, operands.drop 2, (List.take_append_drop 2 operands).symm,
      read_indexed hindexed hldc hwidth⟩
  · obtain ⟨hconstant, hmethod⟩ := not_or.1 hindexed
    exact ⟨[], operands, rfl, hwidth ▸ read_plain operands hconstant hmethod hopcode⟩

/-- An instruction that fits is read from its front, and the number of the bytes behind is known
then. -/
theorem read_gives {raw : RawInstruction} (h : raw.FitsAt offset) :
    ∃ front back, raw.encode = front ++ back ∧
      read.Gives offset front ⟨raw.action, back.length⟩ := by
  cases raw with
  | fixed opcode operands =>
    obtain ⟨front, back, rfl, hread⟩ := @read_fixed offset opcode operands h.1 h.2
    exact ⟨opcode :: front, back, rfl, hread⟩
  | widened opcode operands =>
    have hlength : operands.length = if opcode = Opcode.iinc then 4 else 2 := h
    have hread : read.Gives offset _ _ :=
      @read_widened _ opcode operands (show 2 ≤ operands.length by split at hlength <;> omega)
    refine ⟨Opcode.wide :: opcode :: operands.take 2, operands.drop 2, ?_, ?_⟩
    · simp only [RawInstruction.encode, List.cons_append, List.take_append_drop]
    · rw [List.length_drop, hlength, show (if opcode = Opcode.iinc then 4 else 2) - 2 =
        if opcode = Opcode.iinc then 2 else 0 by split <;> rfl]
      exact hread
  | tableSwitch padding otherwise low high jumps =>
    obtain ⟨hpads, -, hjumps⟩ := h
    refine ⟨_, _, rfl, fun rest => (read_tableHeader hpads otherwise low high rest).trans ?_⟩
    have hsize : jumpTableSize low high = .ok (jumps.flatMap Form.i4.encode).length := by
      rw [jumpTableSize, ← hjumps, if_neg (by omega), Int.toNat_natCast,
        Form.length_flatMap_encode Form.length_i4]
    rw [hsize]
    rfl
  | lookupSwitch padding otherwise pairs =>
    obtain ⟨hpads, hpairs⟩ := h
    refine ⟨Opcode.lookupSwitch :: (padding ++ (Form.i4.encode otherwise ++
      Form.i4.encode (Int32.ofNat pairs.length))),
      pairs.flatMap (Form.i4.andThen fun _ => Form.i4).encode, ?_, ?_⟩
    · simp only [RawInstruction.encode, List.cons_append, List.append_assoc]
    · have hpair (pair : Int32 × Int32) :
          ((Form.i4.andThen fun _ => Form.i4).encode pair).length = 8 := rfl
      rw [Form.length_flatMap_encode hpair]
      exact read_lookupSwitch hpads otherwise hpairs

/-- The first instruction is read, and the others are left. -/
theorem rowFrom_encode {raw : RawInstruction} (h : raw.FitsAt offset) (fuel : Nat) (rest : Bytes) :
    rowFrom (fuel + 1) ⟨offset, raw.encode ++ rest⟩ =
      let row := rowFrom fuel ⟨offset + raw.encode.length, rest⟩
      ⟨raw.action :: row.actions, row.fault⟩ := by
  obtain ⟨front, back, hencode, hread⟩ := read_gives h
  have hsome : (raw.encode ++ rest).isEmpty = false := by
    cases raw <;> rfl
  rw [rowFrom, hsome, if_neg Bool.false_ne_true, hencode, List.append_assoc, hread]
  dsimp only
  rw [skip rfl, List.length_append, ← Nat.add_assoc]

end Instruction

/-- **Instructions that are written one behind the other are the row** that is read, up to its
end. -/
theorem RawInstruction.rowFrom_flatMap {offset : Nat} {raws : List RawInstruction}
    (h : FitFrom offset raws) {fuel : Nat} (hfuel : (raws.flatMap encode).length ≤ fuel) :
    Instruction.rowFrom fuel ⟨offset, raws.flatMap encode⟩ = ⟨raws.map action, none⟩ := by
  induction raws generalizing offset fuel with
  | nil => cases fuel <;> rfl
  | cons raw raws ih =>
    obtain ⟨hraw, hraws⟩ := h
    rw [List.flatMap_cons, List.length_append] at hfuel
    have hpos : 0 < raw.encode.length := by
      cases raw <;> exact Nat.succ_pos _
    obtain ⟨fuel, rfl⟩ := Nat.exists_eq_succ_of_ne_zero (show fuel ≠ 0 by omega)
    rw [List.flatMap_cons, Instruction.rowFrom_encode hraw, ih hraws (by omega)]
    rfl

/-! ### The same code, cut off -/

/-- If the reading succeeds, it does so with more bytes behind its input as well, and leaves
them. -/
def Reader.Myopic {α : Type} (m : Reader α) : Prop :=
  ∀ input value left, m input = .ok value left → ∀ more,
    m ⟨input.offset, input.rest ++ more⟩ = .ok value ⟨left.offset, left.rest ++ more⟩

namespace Reader.Myopic

variable {α β : Type} {m : Reader α}

theorem pure (a : α) : Myopic (Pure.pure a) := by
  intro input value left h more
  cases h
  rfl

theorem bind {f : α → Reader β} (hm : Myopic m) (hf : ∀ a, Myopic (f a)) : Myopic (m >>= f) := by
  intro input value left h more
  cases hread : m input with
  | ok a between =>
    rw [EStateM.bind_of_ok hread] at h
    rw [EStateM.bind_of_ok (hm input a between hread more)]
    exact hf a between value left h more
  | error fault between =>
    rw [EStateM.bind_of_error hread] at h
    exact nomatch h

theorem take (n : Nat) : Myopic (Input.take n) := by
  intro input bytes left h more
  rcases Nat.lt_or_ge input.rest.length n with hshort | hroom
  · rw [Input.take_of_lt hshort] at h
    exact nomatch h
  · rw [Input.take_of_le hroom] at h
    cases h
    have hmore : n ≤ (input.rest ++ more).length := by
      rw [List.length_append]
      exact Nat.le_add_right_of_le hroom
    rw [Input.take_of_le hmore, List.take_append_of_le_length hroom,
      List.drop_append_of_le_length hroom]

theorem composed : Reader.Composed fun m => Myopic m where
  pure := pure
  throw _ := fun _ _ _ h => nomatch h
  bind := bind
  take := take

end Reader.Myopic

namespace Instruction

/-- How much padding there is depends on the offset alone. -/
theorem read_myopic : read.Myopic :=
  Reader.Myopic.composed.instruction fun input => Reader.Myopic.composed.skip _ input

/-- What is acted upon in code that is cut off is acted upon in all of the code, at first. -/
theorem rowFrom_append {fuel fuel' : Nat} (hfuel : fuel ≤ fuel') (input : Input) (more : Bytes) :
    (rowFrom fuel input).actions <+:
      (rowFrom fuel' ⟨input.offset, input.rest ++ more⟩).actions := by
  induction fuel generalizing fuel' input with
  | zero => exact List.nil_prefix
  | succ fuel ih =>
    obtain ⟨fuel', rfl⟩ := Nat.exists_eq_add_of_le' (Nat.le_trans (Nat.succ_pos fuel) hfuel)
    rw [rowFrom]
    split
    · exact List.nil_prefix
    · rename_i hsome
      cases hread : read input with
      | error fault left => exact List.nil_prefix
      | ok instruction operands =>
        have hmore : ¬(input.rest ++ more).isEmpty := by
          rw [List.isEmpty_iff] at hsome ⊢
          exact List.append_ne_nil_of_left_ne_nil hsome more
        rw [rowFrom, if_neg hmore, read_myopic input instruction operands hread more]
        dsimp only
        cases hskip : Input.skip instruction.trailing operands with
        | error fault left =>
          -- the instruction was acted upon before its end was missed
          change [instruction.action] <+: _
          split
          · exact List.prefix_refl _
          · exact List.cons_prefix_cons.2 ⟨rfl, List.nil_prefix⟩
        | ok _ left =>
          rw [Reader.Myopic.composed.skip _ operands () left hskip more]
          exact List.cons_prefix_cons.2 ⟨rfl, ih (Nat.le_of_succ_le_succ hfuel) left⟩

end Instruction

/-! ### What handlers are asked for -/

/-- Whether the handlers are asked for something that an instruction names. -/
def Call.isMention : Call → Bool
  | .constant _ | .method _ => true
  | .loaded _ => false

namespace Handlers

variable {σ : Type} {handlers : Handlers σ}

/-- The handlers accept whatever they are asked. -/
structure Accepting (handlers : Handlers σ) : Prop where
  constant (index : UInt16) (s : σ) : ∃ t, handlers.constant index s = .ok () t
  method (index : UInt16) (s : σ) : ∃ t, handlers.method index s = .ok () t
  loaded (text : String) (s : σ) : ∃ t, handlers.loaded text s = .ok () t

/-- The step succeeds and makes some calls, of which these are named by instructions. -/
def Makes {α : Type} (m : EStateM Fault (σ × List Call) α) (mentions : List Call) : Prop :=
  ∀ s calls, ∃ value t made, m (s, calls) = .ok value (t, made ++ calls) ∧
    made.reverse.filter Call.isMention = mentions

namespace Makes

variable {α β : Type} {m : EStateM Fault (σ × List Call) α} {mentions mentions' : List Call}

theorem pure (a : α) : Makes (Pure.pure a : EStateM Fault (σ × List Call) α) [] :=
  fun s _ => ⟨a, s, [], rfl, rfl⟩

theorem bind {f : α → EStateM Fault (σ × List Call) β} (hm : Makes m mentions)
    (hf : ∀ a, Makes (f a) mentions') : Makes (m >>= f) (mentions ++ mentions') := by
  intro s calls
  obtain ⟨a, t, made, hrun, hmade⟩ := hm s calls
  obtain ⟨b, u, made', hrun', hmade'⟩ := hf a t (made ++ calls)
  refine ⟨b, u, made' ++ made, ?_, ?_⟩
  · rw [EStateM.bind_of_ok hrun, hrun', List.append_assoc]
  · rw [List.reverse_append, List.filter_append, hmade, hmade']

theorem log {call : Call} {step : EStateM Fault σ α} (h : ∀ s, ∃ a t, step s = .ok a t) :
    Makes (Handlers.log call step) ([call].filter Call.isMention) := by
  intro s calls
  obtain ⟨a, t, hstep⟩ := h s
  refine ⟨a, t, [call], ?_, rfl⟩
  rw [Handlers.log, hstep]
  rfl

theorem look {k : σ × List Call → EStateM Fault (σ × List Call) α}
    (h : ∀ t, Makes (k t) mentions) : Makes (get >>= k) mentions :=
  fun s calls => h (s, calls) s calls

end Makes

theorem Accepting.act (h : handlers.Accepting) (targets : Targets) (last : Option UInt16)
    (action : Action) : Makes (handlers.logged.act targets last action) action.mention?.toList := by
  have hconstant (index : UInt16) : Makes (handlers.logged.constant index) [.constant index] :=
    .log fun s => ⟨(), h.constant index s⟩
  have hmethod (index : UInt16) : Makes (handlers.logged.method index) [.method index] :=
    .log fun s => ⟨(), h.method index s⟩
  have hloaded (text : String) : Makes (handlers.logged.loaded text) [] :=
    .log fun s => ⟨(), h.loaded text s⟩
  cases action with
  | load index => exact (hconstant index).bind fun _ => .pure (some index)
  | type index => exact (hconstant index).bind fun _ => .pure none
  | invoke index => exact (hmethod index).bind fun _ => .pure last
  | invokeStatic index =>
    refine (hmethod index).bind fun _ => ?_
    split
    · refine .look fun t => ?_
      split
      · dsimp only
        split
        · exact (hloaded _).bind fun _ => .pure none
        · exact .pure none
      · exact .pure _
    · exact .pure _
  | widened => exact .pure last
  | other => exact .pure none

/-- Handlers that accept everything are asked for what the instructions name. -/
theorem Accepting.follow (h : handlers.Accepting) (targets : Targets) (last : Option UInt16)
    (actions : List Action) :
    Makes (handlers.logged.follow targets last actions) (actions.filterMap Action.mention?) := by
  induction actions generalizing last with
  | nil => exact .pure last
  | cons action actions ih =>
    have hmentions : (action :: actions).filterMap Action.mention? =
        action.mention?.toList ++ actions.filterMap Action.mention? := by
      rw [List.filterMap_cons]
      cases action.mention? <;> rfl
    rw [follow_cons, hmentions]
    exact (h.act targets last action).bind ih

/-- The calls of a walk that is accepted throughout are those of the instructions that it reads, and
it ends when these do. Whether that is well or with a fault is decided by the code alone. -/
theorem Accepting.mentions_calls (h : handlers.Accepting) (targets : Targets) (code : Bytes)
    (s : σ) :
    (∃ next t, handlers.logged.follow targets none (Instruction.row code).actions (s, []) =
      .ok next (t, (handlers.calls targets code s).reverse)) ∧
    (handlers.calls targets code s).filter Call.isMention =
      (Instruction.row code).actions.filterMap Action.mention? := by
  obtain ⟨next, t, made, hrun, hmade⟩ := h.follow targets none (Instruction.row code).actions s []
  rw [List.append_nil] at hrun
  have hcalls : handlers.calls targets code s = made.reverse := by
    have hwalk : handlers.logged.walk targets code (s, []) =
        halt (Instruction.row code).fault (t, made) := by
      rw [walk_eq, EStateM.bind_of_ok hrun]
    rw [calls, hwalk]
    cases (Instruction.row code).fault <;> rfl
  rw [hcalls, List.reverse_reverse]
  exact ⟨⟨next, t, hrun⟩, hmade⟩

/-- Code that is cut off leads to the same calls as far as it goes. -/
theorem Accepting.calls_prefix (h : handlers.Accepting) (targets : Targets) {taken code : Bytes}
    (htaken : taken <+: code) (s : σ) :
    handlers.calls targets taken s <+: handlers.calls targets code s := by
  obtain ⟨more, rfl⟩ := htaken
  have hrow : (Instruction.row taken).actions <+: (Instruction.row (taken ++ more)).actions := by
    refine Instruction.rowFrom_append ?_ (.ofBytes taken) more
    rw [List.length_append]
    exact Nat.le_add_right _ _
  obtain ⟨further, hfurther⟩ := hrow
  obtain ⟨⟨next, t, hrun⟩, -⟩ := h.mentions_calls targets taken s
  obtain ⟨⟨last, u, hall⟩, -⟩ := h.mentions_calls targets (taken ++ more) s
  obtain ⟨_, _, made, hmade, -⟩ :=
    h.follow targets next further t (handlers.calls targets taken s).reverse
  rw [← hfurther, follow_append, EStateM.bind_of_ok hrun] at hall
  have hlog : made ++ (handlers.calls targets taken s).reverse =
      (handlers.calls targets (taken ++ more) s).reverse :=
    congrArg (fun result => (reached result).2) (hmade.symm.trans hall)
  refine ⟨made.reverse, ?_⟩
  rw [← List.reverse_reverse (handlers.calls targets (taken ++ more) s), ← hlog,
    List.reverse_append, List.reverse_reverse]

/-- **Code is walked through instruction by instruction.** Handlers that accept everything are asked
for the constants, classes and methods that the instructions name, in their order, and the walk
comes to the end of the code. If the code is cut off anywhere, they are asked for the first of
these. -/
theorem walk_encode (h : handlers.Accepting) (targets : Targets) {raws : List RawInstruction}
    (hraws : RawInstruction.FitFrom 0 raws) (s : σ) :
    let code := raws.flatMap RawInstruction.encode
    let mentions := raws.filterMap RawInstruction.mention?
    (∃ t, handlers.walk targets code s = .ok () t) ∧
      (handlers.calls targets code s).filter Call.isMention = mentions ∧
      ∀ taken, taken <+: code →
        (handlers.calls targets taken s).filter Call.isMention <+: mentions := by
  intro code mentions
  have hrow : Instruction.row code = ⟨raws.map RawInstruction.action, none⟩ :=
    RawInstruction.rowFrom_flatMap hraws (Nat.le_refl code.length)
  have hmentions : (handlers.calls targets code s).filter Call.isMention = mentions := by
    have hmention : Action.mention? ∘ RawInstruction.action = RawInstruction.mention? :=
      funext RawInstruction.mention?_action
    rw [(h.mentions_calls targets code s).2, hrow, List.filterMap_map, hmention]
  refine ⟨?_, hmentions, fun taken htaken => ?_⟩
  · obtain ⟨⟨next, t, hrun⟩, -⟩ := h.mentions_calls targets code s
    have hwalk : handlers.logged.walk targets code (s, []) =
        .ok () (t, (handlers.calls targets code s).reverse) := by
      rw [walk_eq, EStateM.bind_of_ok hrun, hrow]
      rfl
    have hlogs := @Logs.walk _ handlers targets code s []
    rw [hwalk] at hlogs
    exact ⟨t, hlogs⟩
  · rw [← hmentions]
    exact (h.calls_prefix targets htaken s).filter _

theorem accepting_knowing (constant : UInt16) (text : String) :
    (knowing constant text).Accepting where
  constant _ _ := ⟨(), rfl⟩
  method _ _ := ⟨(), rfl⟩
  loaded _ _ := ⟨(), rfl⟩

/-- Instructions of every kind. Both switches are padded, and not alike. -/
def withSwitches : List RawInstruction :=
  [.fixed 0x1A [], .tableSwitch [0, 0] 24 (-1) 0 [20, 24], .widened Opcode.iinc [1, 0, 0, 1],
    .fixed Opcode.ldcWide [0, 5], .fixed Opcode.invokeStatic [0, 9],
    .lookupSwitch [7, 7, 7] 0 [(-1, 8)],
    .fixed 0xBA [0, 3, 0, 0], .fixed Opcode.newMultiArray [1, 4, 2], .fixed 0xB1 []]

/-- The call in it loads a class by its name, which is no operand of an instruction. All others are
passed over, switches of both kinds among them. -/
theorem walk_encode_withSwitches :
    (knowing 5 "p.B").Accepting ∧ RawInstruction.FitFrom 0 withSwitches ∧
      let code := withSwitches.flatMap RawInstruction.encode
      let mentions := withSwitches.filterMap RawInstruction.mention?
      mentions = [.constant 5, .method 9, .constant 260] ∧
      (∃ t, (knowing 5 "p.B").walk ⟨some 9, none⟩ code () = .ok () t) ∧
        ((knowing 5 "p.B").calls ⟨some 9, none⟩ code ()).filter Call.isMention = mentions ∧
        ∀ taken, taken <+: code →
          ((knowing 5 "p.B").calls ⟨some 9, none⟩ taken ()).filter Call.isMention <+: mentions :=
  ⟨accepting_knowing 5 "p.B", by decide, by decide,
    walk_encode (accepting_knowing 5 "p.B") ⟨some 9, none⟩ (by decide) ()⟩

end Handlers

end ClassFile
