import ClassFile.Bytecode.Row

/-!
# Classes that are loaded by name

A walk through code loads a class by name where it has met the idiom: a constant is loaded, and
later a method is called that loads classes. What may stand between the two is any number of calls
and widened instructions (`ClassFile.Idiom`), and there is no other way for a class to be loaded
(`ClassFile.Handlers.loaded_behind_load`). The call need not follow the load at once.

Two things are known of a walk at any point. The constant that counts as loaded last was loaded by
one of the instructions that were read, with idle ones behind it (`ClassFile.Handlers.Carries`). And
every class in the log was loaded by the idiom (`ClassFile.Handlers.Accounted`); since the last call
is the first in the log, the calls before any of them are what stands behind it there. One
instruction keeps both, whether or not its handlers fail (`ClassFile.Handlers.act_accounted`).
-/

namespace ClassFile

/-- The instruction is passed over between a constant and the call that loads a class by it. -/
def Action.isIdle : Action → Bool
  | .invoke _ | .invokeStatic _ | .widened => true
  | .load _ | .type _ | .other => false

/-- A place in some instructions where a constant is loaded and a method is called after it, with
nothing but idle instructions between. -/
structure Idiom (actions : List Action) where
  front : List Action
  constant : UInt16
  between : List Action
  method : UInt16
  back : List Action
  split : actions = front ++ .load constant :: (between ++ .invokeStatic method :: back)
  idle : ∀ action ∈ between, action.isIdle = true

/-- A step ends like that, whether it succeeds or fails. -/
def Ends {τ α : Type} (m : EStateM Fault τ α) (s : τ) (J : α → τ → Prop) (K : τ → Prop) : Prop :=
  match m s with
  | .ok value t => J value t
  | .error _ t => K t

namespace Ends

variable {σ τ α β : Type} {K : τ → Prop}

theorem pure {a : α} {s : τ} {J : α → τ → Prop} (h : J a s) : Ends (Pure.pure a) s J K := h

theorem bind {m : EStateM Fault τ α} {f : α → EStateM Fault τ β} {s : τ} {I : α → τ → Prop}
    {J : β → τ → Prop} (hm : Ends m s I K) (hf : ∀ a t, I a t → Ends (f a) t J K) :
    Ends (m >>= f) s J K := by
  rw [Ends] at hm
  change match EStateM.bind m f s with
    | .ok value t => J value t
    | .error _ t => K t
  rw [EStateM.bind]
  cases hrun : m s with
  | ok a t =>
    rw [hrun] at hm
    exact hf a t hm
  | error fault t =>
    rw [hrun] at hm
    exact hm

theorem get {s : τ} :
    Ends (MonadState.get : EStateM Fault τ τ) s (fun a t => a = s ∧ t = s) K := ⟨rfl, rfl⟩

theorem log {call : Call} {m : EStateM Fault σ α} {s : σ} {calls : List Call}
    {J : α → σ × List Call → Prop} {K : σ × List Call → Prop}
    (hok : ∀ a t, m s = .ok a t → J a (t, call :: calls))
    (herror : ∀ t, K (t, call :: calls)) : Ends (Handlers.log call m) (s, calls) J K := by
  rw [Ends, Handlers.log]
  cases hrun : m s with
  | ok a t => exact hok a t hrun
  | error fault t => exact herror t

/-- What is known of a step that succeeded may be put to use. -/
theorem of_run {m : EStateM Fault τ α} {s : τ} {J : α → τ → Prop} (h : Ends m s J K) :
    Ends m s (fun a t => m s = .ok a t ∧ J a t) K := by
  rw [Ends] at h ⊢
  cases hrun : m s with
  | ok a t =>
    rw [hrun] at h
    exact ⟨rfl, h⟩
  | error fault t =>
    rw [hrun] at h
    exact h

end Ends

namespace Handlers

variable {σ : Type} {handlers : Handlers σ} {targets : Targets} {start : σ}
  {actions done : List Action} {last : Option UInt16}

/-- The constant that counts as loaded last was loaded by the instructions that were read, and
nothing but idle ones followed. -/
def Carries (done : List Action) (last : Option UInt16) : Prop :=
  ∀ constant, last = some constant →
    ∃ front between, done = front ++ .load constant :: between ∧
      ∀ action ∈ between, action.isIdle = true

theorem carries_none (done : List Action) : Carries done none := nofun

theorem Carries.idle (h : Carries done last) {action : Action} (hidle : action.isIdle = true) :
    Carries (done ++ [action]) last := by
  intro constant hlast
  obtain ⟨front, between, rfl, hbetween⟩ := h constant hlast
  refine ⟨front, between ++ [action], by simp, ?_⟩
  exact List.forall_mem_append.2 ⟨hbetween, List.forall_mem_singleton.2 hidle⟩

/-- A class is loaded by the idiom at this place of a walk, with these calls before. -/
structure LoadsBy (handlers : Handlers σ) (targets : Targets) (start : σ) (actions : List Action)
    (text : String) (earlier : List Call) (idiom : Idiom actions) : Prop where
  target : targets.contain idiom.method = true
  names : namesClass text = true
  /-- The text is that of the constant when the method has been called, and the calls are those that
  were made by then. -/
  text : ∃ s t calls, handlers.logged.follow targets none
      (idiom.front ++ .load idiom.constant :: idiom.between) (start, []) =
        .ok (some idiom.constant) (s, calls) ∧
    handlers.method idiom.method s = .ok () t ∧ handlers.text? t idiom.constant = some text ∧
    earlier = .method idiom.method :: calls

/-- Every load in the log, of which the last call is the first, is by an idiom. -/
def Accounted (handlers : Handlers σ) (targets : Targets) (start : σ) (actions : List Action)
    (calls : List Call) : Prop :=
  ∀ text earlier, .loaded text :: earlier <:+ calls →
    ∃ idiom, handlers.LoadsBy targets start actions text earlier idiom

namespace Accounted

variable {calls : List Call}

theorem nil : handlers.Accounted targets start actions [] :=
  fun _ _ h => absurd (List.suffix_nil.1 h) (List.cons_ne_nil _ _)

/-- A further call is accounted for if it loads no class, or does so by an idiom. -/
theorem cons {call : Call} (h : handlers.Accounted targets start actions calls)
    (hcall : ∀ text, call = .loaded text →
      ∃ idiom, handlers.LoadsBy targets start actions text calls idiom) :
    handlers.Accounted targets start actions (call :: calls) := by
  intro text earlier hsuffix
  obtain hall | hbefore := List.suffix_cons_iff.1 hsuffix
  · cases hall
    exact hcall text rfl
  · exact h text earlier hbefore

/-- A class that is loaded where the idiom is complete is accounted for. -/
theorem loaded {rest : List Action} {index constant : UInt16} {s t : σ} {text : String}
    (h : handlers.Accounted targets start actions (.method index :: calls))
    (hactions : actions = done ++ .invokeStatic index :: rest)
    (hcarries : Carries done (some constant))
    (hdone : handlers.logged.follow targets none done (start, []) = .ok (some constant) (s, calls))
    (htarget : targets.contain index = true) (hrun : handlers.method index s = .ok () t)
    (htext : handlers.text? t constant = some text) (hnames : namesClass text = true) :
    handlers.Accounted targets start actions (.loaded text :: .method index :: calls) := by
  refine h.cons fun text' htext' => ?_
  cases htext'
  obtain ⟨front, between, hfront, hidle⟩ := hcarries constant rfl
  refine ⟨⟨front, constant, between, index, rest, ?_, hidle⟩, htarget, hnames, ?_⟩
  · rw [hactions, hfront]
    simp
  · exact ⟨s, t, calls, hfront ▸ hdone, hrun, htext, rfl⟩

end Accounted

/-- **An instruction** keeps account of the classes that are loaded. -/
theorem act_accounted {action : Action} {rest : List Action} {s : σ} {calls : List Call}
    (hactions : actions = done ++ action :: rest) (hcarries : Carries done last)
    (hdone : handlers.logged.follow targets none done (start, []) = .ok last (s, calls))
    (hs : handlers.Accounted targets start actions calls) :
    Ends (handlers.logged.act targets last action) (s, calls)
      (fun next t => Carries (done ++ [action]) next ∧ handlers.Accounted targets start actions t.2)
      (fun t => handlers.Accounted targets start actions t.2) := by
  have hmet (call : Call) {m : EStateM Fault σ Unit} (hcall : ∀ text, call ≠ .loaded text) :
      Ends (log call m) (s, calls)
        (fun _ t => m s = .ok () t.1 ∧ t.2 = call :: calls ∧
          handlers.Accounted targets start actions t.2)
        (fun t => handlers.Accounted targets start actions t.2) :=
    have hcalled : handlers.Accounted targets start actions (call :: calls) :=
      hs.cons fun text h => absurd h (hcall text)
    .log (fun _ _ hrun => ⟨hrun, rfl, hcalled⟩) fun _ => hcalled
  cases action with
  | load index =>
    refine (hmet (.constant index) nofun).bind fun _ t ht => .pure ⟨?_, ht.2.2⟩
    rintro constant ⟨rfl⟩
    exact ⟨done, [], rfl, nofun⟩
  | type index =>
    exact (hmet (.constant index) nofun).bind fun _ t ht => .pure ⟨carries_none _, ht.2.2⟩
  | invoke index =>
    exact (hmet (.method index) nofun).bind fun _ t ht => .pure ⟨hcarries.idle rfl, ht.2.2⟩
  | invokeStatic index =>
    refine (hmet (.method index) nofun).bind fun _ t ht => ?_
    obtain ⟨hrun, hcalls, ht⟩ := ht
    split
    · rename_i constant htarget
      refine Ends.get.bind fun _ u hread => ?_
      obtain ⟨rfl, rfl⟩ := hread
      cases htext : handlers.logged.text? u constant with
      | none => exact .pure ⟨hcarries.idle rfl, ht⟩
      | some text =>
        dsimp only
        split
        · rename_i hnames
          have hloaded : handlers.Accounted targets start actions (.loaded text :: u.2) := by
            rw [hcalls] at ht ⊢
            exact ht.loaded hactions hcarries hdone htarget hrun htext hnames
          exact Ends.bind (.log (fun _ _ _ => hloaded) fun _ => hloaded)
            fun _ u hu => .pure ⟨carries_none _, hu⟩
        · exact .pure ⟨carries_none _, ht⟩
    · exact .pure ⟨hcarries.idle rfl, ht⟩
  | widened => exact .pure ⟨hcarries.idle rfl, hs⟩
  | other => exact .pure ⟨carries_none _, hs⟩

/-- So do any number of instructions, by induction on those that are left. -/
theorem follow_accounted {todo : List Action} {s : σ} {calls : List Call}
    (hactions : actions = done ++ todo) (hcarries : Carries done last)
    (hdone : handlers.logged.follow targets none done (start, []) = .ok last (s, calls))
    (hs : handlers.Accounted targets start actions calls) :
    Ends (handlers.logged.follow targets last todo) (s, calls)
      (fun _ t => handlers.Accounted targets start actions t.2)
      (fun t => handlers.Accounted targets start actions t.2) := by
  induction todo generalizing done last s calls with
  | nil => exact .pure hs
  | cons action todo ih =>
    rw [follow_cons]
    refine (act_accounted hactions hcarries hdone hs).of_run.bind fun next t ht => ?_
    obtain ⟨hrun, hcarries', ht⟩ := ht
    refine ih (by rw [hactions, List.append_assoc]; rfl) hcarries' ?_ ht
    rw [follow_append]
    change EStateM.bind _ _ _ = _
    rw [EStateM.bind, hdone]
    exact (congrFun (handlers.logged.follow_singleton targets last action) _).trans hrun

/-- A walk keeps account of all classes that it loads. -/
theorem walk_accounted (handlers : Handlers σ) (targets : Targets) (code : Bytes) (start : σ) :
    handlers.Accounted targets start (Instruction.row code).actions
      (reached (handlers.logged.walk targets code (start, []))).2 := by
  have hends : Ends (handlers.logged.walk targets code) (start, [])
      (fun _ t => handlers.Accounted targets start (Instruction.row code).actions t.2)
      (fun t => handlers.Accounted targets start (Instruction.row code).actions t.2) := by
    rw [walk_eq]
    refine (follow_accounted (List.nil_append _).symm (carries_none []) rfl .nil).bind
      fun _ t ht => ?_
    cases (Instruction.row code).fault with
    | none => exact ht
    | some fault => exact ht
  rw [Ends] at hends
  split at hends
  all_goals
    rename_i hrun
    rw [hrun]
    exact hends

/-- **A class is loaded by name only where a constant was loaded before and the call is that of a
method that loads classes**, with nothing between but calls and widened instructions, whatever the
handlers are: the name is the text that they have for the constant when the method has been
called. -/
theorem loaded_behind_load {code : Bytes} {text : String} {before after : List Call}
    (h : handlers.calls targets code start = before ++ .loaded text :: after) :
    ∃ idiom : Idiom (Instruction.row code).actions,
      handlers.LoadsBy targets start _ text before.reverse idiom := by
  refine walk_accounted handlers targets code start text before.reverse ⟨after.reverse, ?_⟩
  rw [← List.reverse_inj, ← calls.eq_def, h]
  simp

/-- Handlers that do nothing, for which one constant is a text. -/
def knowing (constant : UInt16) (text : String) : Handlers Unit where
  constant _ := pure ()
  method _ := pure ()
  text? _ index := if index = constant then some text else none
  loaded _ := pure ()

/-- A constant is loaded, a method of an object is called, and then a method without an object. -/
def interposed : Bytes := [0x12, 5, 0xB6, 0, 9, 0xB8, 0, 20]

theorem calls_interposed :
    (knowing 5 "p.B").calls ⟨some 20, none⟩ interposed () =
      [.constant 5, .method 9, .method 20] ++ .loaded "p.B" :: [] := by
  decide +kernel

/-- The class is loaded by the idiom, with a call between: the constant that was loaded in front of
that call is the one whose class is loaded. -/
theorem loaded_behind_load_of_call :
    (knowing 5 "p.B").calls ⟨some 20, none⟩ interposed () =
        [.constant 5, .method 9, .method 20] ++ .loaded "p.B" :: [] ∧
      ∃ idiom : Idiom (Instruction.row interposed).actions,
        (knowing 5 "p.B").LoadsBy ⟨some 20, none⟩ () _ "p.B"
          [.method 20, .method 9, .constant 5] idiom :=
  ⟨calls_interposed, loaded_behind_load calls_interposed⟩

/-- So the instruction right in front of a call that loads a class need not load a constant. Here it
calls another method, which leaves the constant as it was. -/
theorem loaded_behind_load_differs :
    .loaded "p.B" ∈ (knowing 5 "p.B").calls ⟨some 20, none⟩ interposed () ∧
      (Instruction.row interposed).actions = [.load 5, .invoke 9, .invokeStatic 20] ∧
      ¬∃ front constant index back, (Instruction.row interposed).actions =
        front ++ .load constant :: .invokeStatic index :: back := by
  have hactions : (Instruction.row interposed).actions =
      [.load 5, .invoke 9, .invokeStatic 20] := by
    decide +kernel
  refine ⟨?_, hactions, ?_⟩
  · rw [calls_interposed]
    decide
  · rintro ⟨front, constant, index, back, hsplit⟩
    rw [hactions] at hsplit
    match front with
    | [] => cases hsplit
    | [_] => cases hsplit
    | [_, _] => cases hsplit
    | _ :: _ :: _ :: _ => simp at hsplit

end Handlers

end ClassFile
