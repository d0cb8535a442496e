import ClassFile.Session

/-!
# Clients of a session

A listener may start other decodings on the session of the one that it listens to, those
decodings may have listeners of their own, and so on. `Client` and `Plan` write such a tree
of decodings down. A plan is what is done with a session: to look at it, to decode a class
file, to decode one with a client that listens, and to go on with what came of it. A client
has a plan for every event, and says whether a class is admitted.

Carried out on a session, a plan gives the session afterwards and its notes (`Plan.run`).
The same plan can also be carried out with every decoding apart from the others, each in a
new session that nobody else touches (`Plan.apart`). A client cannot tell the two ways from
each other if the packages of types are handed out without regard to the session.
-/

namespace ClassFile

mutual

/-- A listener that acts on the session by plans. What it does may depend on its notes so
far; for the admission of a class it also knows how many decodings are under way. -/
inductive Client where
  | mk (hears : Array Note → Event → Plan) (admits : Array Note → Record → Nat → Bool)

/-- What is done with a session, one thing after the other. -/
inductive Plan where
  | done
  /-- To ask how many decodings are under way, and whether the session is clean. -/
  | look (next : Nat → Bool → Plan)
  /-- To decode a class file. -/
  | decode (bytes : Bytes) (next : List Note → Except Fault (Option Record) → Plan)
  /-- To decode a class file while a client listens. -/
  | attend (client : Client) (bytes : Bytes)
      (next : List Note → Except Fault (Option Record) → Plan)

end

/-- The pools to spare are empty, and there are none if no decoding is under way. -/
def Session.Clean (session : Session) : Prop :=
  (∀ pool ∈ session.spare, pool = .empty) ∧ (session.depth = 0 → session.spare = [])

instance (session : Session) : Decidable session.Clean :=
  inferInstanceAs (Decidable (_ ∧ _))

mutual

/-- The client at work on the session of the decoding that it listens to. -/
def Client.listener (options : Options) : Client → Listener
  | .mk hears admits =>
    { hears := fun notes event session => Plan.run options (hears notes event) session
      admits := fun notes record session => admits notes record session.depth }
termination_by structural client => client

/-- Carries out a plan: the session afterwards, and what is remembered of it. -/
def Plan.run (options : Options) : Plan → Session → Session × List Note
  | .done, session => (session, [])
  | .look next, session =>
    Plan.run options (next session.depth (decide session.Clean)) session
  | .decode bytes next, session =>
    let run := session.run options none bytes
    let (after, notes) := Plan.run options (next run.notes run.outcome) run.session
    (after, .ran run.notes run.outcome run.session.depth :: notes)
  | .attend client bytes next, session =>
    let run := session.run options (some (Client.listener options client)) bytes
    let (after, notes) := Plan.run options (next run.notes run.outcome) run.session
    (after, .ran run.notes run.outcome run.session.depth :: notes)
termination_by structural plan => plan

end

mutual

/-- The client when it has no access to the session of the decoding that it listens to,
which is said to be one of `level` that are under way. -/
def Client.aloof (options : Options) : Client → Nat → Listener
  | .mk hears admits, level =>
    { hears := fun notes event session => (session, Plan.apart options (hears notes event) level)
      admits := fun notes record _ => admits notes record level }
termination_by structural client => client

/-- What is remembered of a plan when every decoding has a new session to itself. A look at
a session shows `level` decodings under way, and a clean session. -/
def Plan.apart (options : Options) : Plan → Nat → List Note
  | .done, _ => []
  | .look next, level => Plan.apart options (next level true) level
  | .decode bytes next, level =>
    let run := Session.run options none bytes {}
    .ran run.notes run.outcome level :: Plan.apart options (next run.notes run.outcome) level
  | .attend client bytes next, level =>
    let run := Session.run options (some (Client.aloof options client (level + 1))) bytes {}
    .ran run.notes run.outcome level :: Plan.apart options (next run.notes run.outcome) level
termination_by structural plan => plan

end

/-- The package of a type is handed out without regard to what was handed out before. -/
def Namer.Pure (namer : Namer) : Prop :=
  ∃ package : TypeName → Package, ∀ type table, (namer.packageOf type table).1 = package type

end ClassFile
