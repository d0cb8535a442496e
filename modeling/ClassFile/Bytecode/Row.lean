import ClassFile.Bytecode.Walk

/-!
# The row of instructions in code

What a walk through code does, taken apart in two ways. The instructions of the code do not depend
on who walks: they are a list, read off beforehand (`ClassFile.Instruction.row`), and a walk acts on
one after the other (`ClassFile.Handlers.walk_eq`). What a walk asks of its handlers, on the other
hand, depends on their state; so the calls are taken down while they are made
(`ClassFile.Handlers.logged`), which the handlers do not notice (`ClassFile.Logs.walk`).
-/

namespace ClassFile

/-- The instructions of some code, as far as it can be read. -/
structure Row where
  /-- What they mean, in order. The last one may be cut off behind its operands. -/
  actions : List Action
  /-- Why the rest cannot be read. -/
  fault : Option Fault
  deriving DecidableEq

namespace Instruction

/-- At most `fuel` instructions. -/
def rowFrom : (fuel : Nat) → Input → Row
  | 0, _ => ⟨[], none⟩
  | fuel + 1, input =>
    if input.rest.isEmpty then ⟨[], none⟩
    else match read input with
      | .error fault _ => ⟨[], some fault⟩
      | .ok instruction operands =>
        match Input.skip instruction.trailing operands with
        | .error fault _ => ⟨[instruction.action], some fault⟩
        | .ok _ rest =>
          let row := rowFrom fuel rest
          ⟨instruction.action :: row.actions, row.fault⟩

/-- The instructions of a method's code. -/
def row (code : Bytes) : Row := rowFrom code.length (.ofBytes code)

end Instruction

/-- What a walk asks of its handlers. -/
inductive Call where
  | constant (index : UInt16)
  | method (index : UInt16)
  | loaded (text : String)
  deriving DecidableEq, Repr

namespace Handlers

variable {σ : Type} (handlers : Handlers σ) (targets : Targets)

/-- Acts on instructions, one after the other. -/
def follow (last : Option UInt16) (actions : List Action) : EStateM Fault σ (Option UInt16) :=
  actions.foldlM (handlers.act targets) last

theorem follow_cons (last : Option UInt16) (action : Action) (actions : List Action) :
    handlers.follow targets last (action :: actions) =
      handlers.act targets last action >>= fun next => handlers.follow targets next actions :=
  List.foldlM_cons

/-- What is left to do when all instructions that can be read were acted upon. -/
def halt : Option Fault → EStateM Fault σ Unit
  | none => pure ()
  | some fault => throw fault

theorem walkFrom_eq (fuel : Nat) (last : Option UInt16) (input : Input) :
    handlers.walkFrom targets fuel last input =
      handlers.follow targets last (Instruction.rowFrom fuel input).actions >>= fun _ =>
        halt (Instruction.rowFrom fuel input).fault := by
  induction fuel generalizing last input with
  | zero => rfl
  | succ fuel ih =>
    rw [walkFrom, Instruction.rowFrom]
    split
    · rfl
    · cases Instruction.read input with
      | error fault _ => rfl
      | ok instruction operands =>
        dsimp only
        cases Input.skip instruction.trailing operands with
        | error fault _ =>
          dsimp only
          rw [follow_cons, bind_assoc]
          rfl
        | ok _ rest =>
          dsimp only
          rw [follow_cons, bind_assoc]
          exact bind_congr fun next => ih next rest

/-- **A walk acts on the instructions of the code** one after the other, and fails if it cannot go
on. -/
theorem walk_eq (code : Bytes) :
    handlers.walk targets code =
      handlers.follow targets none (Instruction.row code).actions >>= fun _ =>
        halt (Instruction.row code).fault :=
  handlers.walkFrom_eq targets code.length none (.ofBytes code)

theorem follow_append (last : Option UInt16) (actions further : List Action) :
    handlers.follow targets last (actions ++ further) =
      handlers.follow targets last actions >>= fun next => handlers.follow targets next further :=
  List.foldlM_append

theorem follow_singleton (last : Option UInt16) (action : Action) :
    handlers.follow targets last [action] = handlers.act targets last action :=
  bind_pure _

/-! ### The calls that are made -/

/-- A step that is taken down before it is taken. -/
def log {α : Type} (call : Call) (m : EStateM Fault σ α) : EStateM Fault (σ × List Call) α :=
  fun (s, calls) =>
    match m s with
    | .ok value t => .ok value (t, call :: calls)
    | .error fault t => .error fault (t, call :: calls)

/-- The same handlers, with the calls that are made of them, the last one first. -/
def logged : Handlers (σ × List Call) where
  constant index := log (.constant index) (handlers.constant index)
  method index := log (.method index) (handlers.method index)
  text? s index := handlers.text? s.1 index
  loaded text := log (.loaded text) (handlers.loaded text)

/-- Where a step comes to, whether or not it succeeds. -/
def reached {τ α : Type} : EStateM.Result Fault τ α → τ
  | .ok _ t | .error _ t => t

/-- The calls that a walk makes, in order. -/
def calls (code : Bytes) (s : σ) : List Call :=
  (reached (handlers.logged.walk targets code (s, []))).2.reverse

end Handlers

/-! ### The calls are not noticed -/

/-- The first step does what the second does, and keeps a log besides. -/
def Logs {σ κ α : Type} (m : EStateM Fault (σ × κ) α) (m' : EStateM Fault σ α) : Prop :=
  ∀ s log, match m (s, log) with
    | .ok value t => m' s = .ok value t.1
    | .error fault t => m' s = .error fault t.1

namespace Logs

variable {σ κ α β : Type} {handlers : Handlers σ} {targets : Targets}

theorem pure (a : α) : Logs (Pure.pure a : EStateM Fault (σ × κ) α) (Pure.pure a) :=
  fun _ _ => rfl

theorem bind {m : EStateM Fault (σ × κ) α} {m' : EStateM Fault σ α}
    {f : α → EStateM Fault (σ × κ) β} {f' : α → EStateM Fault σ β} (hm : Logs m m')
    (hf : ∀ a, Logs (f a) (f' a)) : Logs (m >>= f) (m' >>= f') := by
  intro s log
  have hfirst := hm s log
  change match EStateM.bind m f (s, log) with
    | .ok value t => EStateM.bind m' f' s = .ok value t.1
    | .error fault t => EStateM.bind m' f' s = .error fault t.1
  rw [EStateM.bind, EStateM.bind]
  cases hrun : m (s, log) with
  | ok a t =>
    rw [hrun] at hfirst
    rw [hfirst]
    exact hf a t.1 t.2
  | error fault t =>
    rw [hrun] at hfirst
    rw [hfirst]

theorem log (call : Call) (m : EStateM Fault σ α) : Logs (Handlers.log call m) m := by
  intro s calls
  rw [Handlers.log]
  cases m s <;> rfl

theorem look {k : σ × κ → EStateM Fault (σ × κ) α} {k' : σ → EStateM Fault σ α}
    (h : ∀ s log, Logs (k (s, log)) (k' s)) : Logs (get >>= k) (get >>= k') :=
  fun s log => h s log s log

theorem act (last : Option UInt16) (action : Action) :
    Logs (handlers.logged.act targets last action) (handlers.act targets last action) := by
  cases action with
  | load index => exact (log _ _).bind fun _ => pure _
  | type index => exact (log _ _).bind fun _ => pure _
  | invoke index => exact (log _ _).bind fun _ => pure _
  | invokeStatic index =>
    refine (log (.method index) _).bind fun _ => ?_
    split
    · refine look fun s calls => ?_
      have htext (constant : UInt16) :
          handlers.logged.text? (s, calls) constant = handlers.text? s constant := rfl
      rw [htext]
      split
      · dsimp only
        split
        · exact (log _ _).bind fun _ => pure _
        · exact pure _
      · exact pure _
    · exact pure _
  | widened => exact pure _
  | other => exact pure _

/-- **The handlers do not notice** that their calls are taken down. -/
theorem walk (code : Bytes) :
    Logs (handlers.logged.walk targets code) (handlers.walk targets code) := by
  have hfollow (last : Option UInt16) (actions : List Action) :
      Logs (handlers.logged.follow targets last actions)
        (handlers.follow targets last actions) := by
    induction actions generalizing last with
    | nil => exact pure last
    | cons action actions ih => exact (act last action).bind fun next => ih next
  rw [Handlers.walk_eq, Handlers.walk_eq]
  refine (hfollow none _).bind fun _ => ?_
  cases (Instruction.row code).fault with
  | none => exact pure ()
  | some fault => exact fun _ _ => rfl

end Logs

end ClassFile
