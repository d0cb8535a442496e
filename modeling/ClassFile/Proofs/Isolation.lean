import ClassFile.Client
import ClassFile.Proofs.Simulation

/-!
# Decodings that share a session do not disturb each other

A decoding takes from its session an emptied pool, and asks it for packages. If packages are
handed out without regard to the session, the two invariants that matter are those of
`ClassFile.Session.Clean`, and that the number of decodings under way is what it was. Both
hold of a session when a client is told something, and both hold when the client is done.

A whole tree of decodings is gone through by induction over the plan that starts them
(`ClassFile.Plan.isolated`): each decoding in it is simulated by the same one in a session
of its own.
-/

namespace ClassFile

open Decode

variable {options : Options} {level : Nat}

/-! ### Entering and leaving a session -/

namespace Session

/-- A new session has no pools to spare, and no decoding is under way. -/
theorem clean_new : Clean {} := ⟨fun _ hpool => absurd hpool List.not_mem_nil, fun _ => rfl⟩

namespace Clean

/-- The pool that a decoding gets from a clean session is an empty one, whether it was to spare or
is made for it. -/
theorem enter_fst {session : Session} (h : session.Clean) : session.enter.1 = .empty := by
  change session.spare.head?.getD .empty = .empty
  cases hspare : session.spare with
  | nil => rfl
  | cons pool rest => exact h.1 pool (hspare ▸ List.mem_cons_self)

/-- A clean session stays clean when a decoding begins. There are no pools to spare if none were
there, so that a session without decodings under way keeps to that. -/
theorem enter {session : Session} (h : session.Clean) : session.enter.2.Clean :=
  ⟨fun pool hpool => h.1 pool (List.mem_of_mem_tail hpool), fun hdepth => nomatch hdepth⟩

/-- And when a decoding ends, for its pool is emptied before it is given back, and dropped with the
others when no decoding is under way. -/
theorem leave {session : Session} (h : session.Clean) (pool : Pool) :
    (session.leave pool).Clean := by
  by_cases hdepth : session.depth - 1 = 0
  · have hspare : (session.leave pool).spare = [] := if_pos hdepth
    refine ⟨fun other hother => ?_, fun _ => hspare⟩
    rw [hspare] at hother
    exact nomatch hother
  · have hspare : (session.leave pool).spare = .empty :: session.spare := if_neg hdepth
    refine ⟨fun other hother => ?_, fun hleft => absurd hleft hdepth⟩
    rw [hspare] at hother
    rcases List.mem_cons.1 hother with rfl | hother
    · rfl
    · exact h.1 other hother

end Clean

end Session

/-! ### One decoding -/

/-- The states are the same but for their sessions, of which the first is clean, with the
given number of decodings under way. -/
structure Decoder.Beside (level : Nat) (s t : Decoder) : Prop where
  core : s.core = t.core
  input : s.input = t.input
  notes : s.notes = t.notes
  clean : s.session.Clean
  depth : s.session.depth = level

/-- Nothing but the session tells the two states apart, and neither the core nor the input is in
it. -/
theorem Decoder.Beside.congruent : Congruent (Decoder.Beside level) where
  core h := h.core
  input h := h.input
  withCore _ h := ⟨rfl, h.input, h.notes, h.clean, h.depth⟩
  withInput _ h := ⟨h.core, rfl, h.notes, h.clean, h.depth⟩

/-- On a clean session the first listener does what the second one does on any session, and
leaves a clean session behind with as many decodings under way. -/
structure Listener.Beside (level : Nat) (listener other : Listener) : Prop where
  hears (notes : Array Note) (event : Event) {session : Session} (apart : Session) :
    session.Clean → session.depth = level →
      (listener.hears notes event session).2 = (other.hears notes event apart).2 ∧
      (listener.hears notes event session).1.Clean ∧
      (listener.hears notes event session).1.depth = level
  admits (notes : Array Note) (record : Record) {session : Session} (apart : Session) :
    session.depth = level →
      listener.admits notes record session = other.admits notes record apart

/-- Both listeners are missing, or they are there and behave alike. -/
inductive Listener.BothBeside (level : Nat) : Option Listener → Option Listener → Prop
  | none : BothBeside level none none
  | some {listener other : Listener} :
    listener.Beside level other → BothBeside level (some listener) (some other)

theorem Listener.BothBeside.isSome_eq {listener other : Option Listener}
    (h : BothBeside level listener other) : listener.isSome = other.isSome := by
  cases h <;> rfl

/-- Two namers hand out the same packages, whatever was asked of each of them before. -/
def Namer.Agrees (namer other : Namer) : Prop :=
  ∀ type table apart, (namer.packageOf type table).1 = (other.packageOf type apart).1

/-- A namer that computes packages agrees with itself, whatever it was asked. -/
theorem Namer.Pure.agrees {namer : Namer} (h : namer.Pure) : namer.Agrees namer := by
  obtain ⟨package, hpackage⟩ := h
  exact fun type table apart => (hpackage type table).trans (hpackage type apart).symm

/-- Both are given the same package, and so go on in the same way. The tables may differ afterwards,
as they could before. -/
theorem Namer.Agrees.packageOf {c d : Context} (h : c.namer.Agrees d.namer) (type : TypeName) :
    Simulates Eq (Decoder.Beside level) (Decode.packageOf c type) (Decode.packageOf d type) := by
  intro s t hst
  have hresult (context : Context) (s : Decoder) : Decode.packageOf context type s =
      .ok (context.namer.packageOf type s.session.table).1
        { s with session :=
          { s.session with table := (context.namer.packageOf type s.session.table).2 } } := rfl
  rw [hresult, hresult, h type s.session.table t.session.table]
  exact .ok ⟨hst.core, hst.input, hst.notes, hst.clean, hst.depth⟩

/-- Both are told of the event, or both have no listener. What a listener does with its session is
its own matter, as long as the session is left clean. -/
theorem Listener.BothBeside.tell {c d : Context}
    (h : BothBeside level c.listener d.listener) (event : Event) :
    Simulates Eq (Decoder.Beside level) (tell c event) (tell d event) := by
  refine Simulates.modify fun s t hst => ?_
  obtain ⟨namer, listener⟩ := c
  obtain ⟨namer', other⟩ := d
  cases h with
  | none => exact hst
  | @some listener other h =>
    obtain ⟨hnotes, hclean, hdepth⟩ := h.hears s.notes event t.session hst.clean hst.depth
    refine ⟨hst.core, hst.input, ?_, hclean, hdepth⟩
    change s.notes.push _ ++ (listener.hears s.notes event s.session).2.toArray =
      t.notes.push _ ++ (other.hears t.notes event t.session).2.toArray
    rw [hnotes, hst.notes]

/-- What comes of a decoding on a clean session is what comes of it on a new one, also with another
namer that hands out the same packages. -/
theorem Session.run_beside {options' : Options} (hnamer : options.namer.Agrees options'.namer)
    (hwalk : options.walkForListener = options'.walkForListener) {session : Session}
    (hclean : session.Clean) {listener other : Option Listener}
    (h : Listener.BothBeside (session.depth + 1) listener other) (bytes : Bytes) :
    (session.run options listener bytes).outcome = (Session.run options' other bytes {}).outcome ∧
    (session.run options listener bytes).notes = (Session.run options' other bytes {}).notes ∧
    (session.run options listener bytes).session.Clean ∧
    (session.run options listener bytes).session.depth = session.depth := by
  have hparametric : Parametric ⟨options.namer, listener⟩ ⟨options'.namer, other⟩
      (Simulates Eq (Decoder.Beside (session.depth + 1))) :=
    Simulates.parametric Decoder.Beside.congruent h.isSome_eq hnamer.packageOf
      (Listener.BothBeside.tell h)
  have hbegin : Decoder.Beside (session.depth + 1) (session.decoder options listener bytes)
      (Session.decoder options' other bytes {}) := by
    refine ⟨?_, rfl, rfl, hclean.enter, rfl⟩
    simp only [Decoder.core, Session.decoder, hclean.enter_fst, h.isSome_eq, hwalk]
    rfl
  have hadmits : ∀ l ∈ listener, ∀ l' ∈ other, ∀ s t record,
      Decoder.Beside (session.depth + 1) s t →
      l.admits s.notes record s.session = l'.admits t.notes record t.session := by
    intro l hl l' hl' s t record hst
    cases h with
    | none => exact nomatch hl
    | some h =>
      cases hl
      cases hl'
      rw [hst.notes]
      exact h.admits t.notes record t.session hst.depth
  have hleave {s : Decoder} (hclean : s.session.Clean)
      (hdepth : s.session.depth = session.depth + 1) :
      (s.session.leave s.pool).Clean ∧ (s.session.leave s.pool).depth = session.depth :=
    ⟨hclean.leave s.pool, by rw [Session.leave, hdepth]; rfl⟩
  -- the two runs are beside each other from the start, and every step keeps them so
  rw [Session.run, Session.run]
  obtain ⟨record, s, t, hs, ht, hst⟩ | ⟨fault, _, s, t, hs, ht, rfl, hst⟩ :=
    (Simulates.classFile hparametric h.isSome_eq hadmits _ _ hbegin).eq_or
  · rw [hs, ht]
    exact ⟨rfl, congrArg Array.toList hst.notes, hleave hst.clean hst.depth⟩
  · rw [hs, ht]
    exact ⟨rfl, congrArg Array.toList hst.notes, hleave hst.clean hst.depth⟩

/-! ### A tree of decodings -/

/-- Carrying out the plan on a clean session is remembered like carrying it out apart. -/
def Plan.Isolated (options : Options) (plan : Plan) : Prop :=
  ∀ session : Session, session.Clean →
    (plan.run options session).2 = plan.apart options session.depth ∧
    (plan.run options session).1.Clean ∧
    (plan.run options session).1.depth = session.depth

/-- So is whatever the client does. -/
def Client.Isolated (options : Options) : Client → Prop
  | .mk hears _ => ∀ notes event, (hears notes event).Isolated options

/-- A client that listens on the shared session notes the same as one that is given sessions of its
own. -/
theorem Client.Isolated.beside {client : Client} (h : client.Isolated options) :
    (client.listener options).Beside level (client.aloof options level) := by
  obtain ⟨hears, admits⟩ := client
  refine ⟨fun notes event session apart hclean hdepth => ?_,
    fun notes record session apart hdepth => congrArg (admits notes record) hdepth⟩
  rw [← hdepth]
  exact h notes event session hclean

theorem Plan.Isolated.done : Plan.Isolated options .done :=
  fun _ hclean => ⟨rfl, hclean, rfl⟩

/-- A look at the session shows that it is clean, and how many decodings are under way. -/
theorem Plan.Isolated.look {next : Nat → Bool → Plan}
    (h : ∀ depth clean, (next depth clean).Isolated options) :
    Plan.Isolated options (.look next) := by
  intro session hclean
  rw [Plan.run, Plan.apart, decide_eq_true hclean]
  exact h session.depth true session hclean

/-- A decoding without a listener is like the one apart, and what the plan does next starts from a
clean session again. -/
theorem Plan.Isolated.decode (hnamer : options.namer.Pure) {bytes : Bytes}
    {next : List Note → Except Fault (Option Record) → Plan}
    (h : ∀ notes outcome, (next notes outcome).Isolated options) :
    Plan.Isolated options (.decode bytes next) := by
  intro session hclean
  obtain ⟨houtcome, hnotes, hafter, hdepth⟩ :=
    Session.run_beside hnamer.agrees rfl hclean .none bytes
  obtain ⟨hrest, hlast, hlevel⟩ := h (session.run options none bytes).notes
    (session.run options none bytes).outcome _ hafter
  rw [Plan.run, Plan.apart, ← houtcome, ← hnotes]
  refine ⟨?_, hlast, hlevel.trans hdepth⟩
  change Note.ran _ _ _ :: _ = _
  rw [hrest, hdepth]

/-- So is one with a client that listens, if the client itself is isolated in all that it does when
it is told something. -/
theorem Plan.Isolated.attend (hnamer : options.namer.Pure) {client : Client}
    (hclient : client.Isolated options) {bytes : Bytes}
    {next : List Note → Except Fault (Option Record) → Plan}
    (h : ∀ notes outcome, (next notes outcome).Isolated options) :
    Plan.Isolated options (.attend client bytes next) := by
  intro session hclean
  obtain ⟨houtcome, hnotes, hafter, hdepth⟩ :=
    Session.run_beside hnamer.agrees rfl hclean (.some hclient.beside) bytes
  obtain ⟨hrest, hlast, hlevel⟩ :=
    h (session.run options (some (client.listener options)) bytes).notes
      (session.run options (some (client.listener options)) bytes).outcome _ hafter
  rw [Plan.run, Plan.apart, ← houtcome, ← hnotes]
  refine ⟨?_, hlast, hlevel.trans hdepth⟩
  change Note.ran _ _ _ :: _ = _
  rw [hrest, hdepth]

mutual

/-- What a client does when it is told something is a plan, so clients and plans are gone through by
a mutual induction. -/
theorem Client.isolated (hnamer : options.namer.Pure) : ∀ client : Client, client.Isolated options
  | .mk hears _ => fun notes event => Plan.isolated hnamer (hears notes event)
termination_by structural client => client

/-- A plan is gone through decoding by decoding. For each of them it is known by induction that the
clients in it, and the rest of the plan, are isolated. -/
theorem Plan.isolated (hnamer : options.namer.Pure) : ∀ plan : Plan, plan.Isolated options
  | .done => .done
  | .look next => .look fun depth clean => Plan.isolated hnamer (next depth clean)
  | .decode _ next => .decode hnamer fun notes outcome => Plan.isolated hnamer (next notes outcome)
  | .attend client _ next => .attend hnamer (Client.isolated hnamer client) fun notes outcome =>
    Plan.isolated hnamer (next notes outcome)
termination_by structural plan => plan

end

/-- **Decodings are isolated from each other**: whatever decodings a plan and its clients
start on a clean session, one after the other or one inside the other, and however each of
them ends, all that is remembered of them is the same as if each had had a new session to
itself. No client ever sees anything but a clean session, with one more decoding under way
than when it was attended to, and the session is left clean and as deep as it was. -/
theorem Plan.run_eq_apart (hnamer : options.namer.Pure) (plan : Plan) {session : Session}
    (hclean : session.Clean) :
    (plan.run options session).2 = plan.apart options session.depth ∧
    (plan.run options session).1.Clean ∧
    (plan.run options session).1.depth = session.depth :=
  Plan.isolated hnamer plan session hclean

/-- A client that decodes an empty file when it is told of a version, and looks at the session
afterwards. The call inside comes to what it comes to alone, and so does the one around it. -/
theorem Plan.run_eq_apart_of_nested :
    let client : Client := .mk
      (fun _ _ => .decode [] fun _ _ => .look fun _ _ => .done) fun _ _ _ => true
    let plan : Plan := .attend client [0xCA, 0xFE, 0xBA, 0xBE, 0, 0, 0, 52] fun _ _ => .done
    (plan.run ⟨.exact, true⟩ {}).2 = plan.apart ⟨.exact, true⟩ 0 ∧
    (plan.run ⟨.exact, true⟩ {}).1.Clean ∧
    (plan.run ⟨.exact, true⟩ {}).1.depth = 0 :=
  Plan.run_eq_apart ⟨.ofType, fun _ _ => rfl⟩ _ Session.clean_new

end ClassFile
