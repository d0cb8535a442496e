import ClassFile.Session
import Mathlib.Computability.Language

/-!
# What a listener is told, and in what order

A listener is told of a class in the order of the file: the version, the start of the class,
its supertypes, the fields, the methods, the end of the members, what the attributes of the class
say, and the end of the class. Before each supertype there may be references, and after a field
or method there is what its attributes say.

The orders that are possible are languages over the kinds of events (`ClassFile.EventKind`): one
for classes that are decoded to the end, one for classes that the listener does not admit, and
one for files that turn out to be malformed (`ClassFile.Protocol.words`). In the last one the
telling breaks off at any point; but if the start of the class was told then so is its end.
-/

namespace ClassFile

open scoped Computability

/-- The kinds of events that the order depends on. -/
inductive EventKind where
  | version
  | classStart
  | superclass
  | interfaces
  | field
  | method
  /-- A class is named or referred to. -/
  | reference
  /-- Anything else that an attribute or an instruction says. -/
  | attribute
  | membersEnd
  | classEnd
  deriving DecidableEq, Repr

/-- The kind of an event. -/
def Event.kind : Event → EventKind
  | .version _ _ => .version
  | .classStart _ => .classStart
  | .superclass _ => .superclass
  | .interfaces _ => .interfaces
  | .field _ => .field
  | .method _ => .method
  | .named _ | .referred _ _ => .reference
  | .deprecated | .signature _ | .constant _ | .annotated _ | .annotationDefault _ _ => .attribute
  | .parameter _ | .innerClass _ | .enclosingMethod _ | .methodCalled _ _ _ _ => .attribute
  | .membersEnd => .membersEnd
  | .classEnd => .classEnd

namespace Protocol

/-- One event of a kind. -/
def one (kind : EventKind) : Language EventKind := {[kind]}

/-- The words that can be continued to a word of the language. -/
def begun (words : Language EventKind) : Language EventKind := fun word =>
  ∃ rest, word ++ rest ∈ words

/-- Any number of references. -/
def references : Language EventKind := (one .reference)∗

/-- Whatever attributes say. -/
def details : Language EventKind := (one .reference + one .attribute)∗

/-- What is told before it is known which class it is. -/
def opening : Language EventKind := one .version * references

/-- What is told of a member. -/
def member (kind : EventKind) : Language EventKind := one kind * details

/-- What is told of the supertypes and the members of a class. -/
def outline : Language EventKind :=
  (1 + references * one .superclass) * ((1 + references * one .interfaces) *
    ((member .field)∗ * (member .method)∗))

/-- What is told between the start of a class and its end. -/
def body : Language EventKind := outline * (one .membersEnd * details)

/-- What is told of a class of which the given is told between its start and its end. -/
def around (inside : Language EventKind) : Language EventKind :=
  opening * (one .classStart * (inside * one .classEnd))

/-- What can be told of a decoding, by its outcome. -/
def words : Except Fault (Option Record) → Language EventKind
  | .ok (some _) => around body
  | .ok none => around 1
  | .error _ => 1 + opening + around (begun body)

end Protocol

/-- The event that a listener was told of, if that is what the note says. -/
def Note.event? : Note → Option Event
  | .told event => some event
  | .ran _ _ _ => none

namespace Listener

/-- A listener that does not make out to have been told of more than it was. -/
def Candid (listener : Listener) : Prop :=
  ∀ notes event session, ∀ note ∈ (listener.hears notes event session).2, note.event? = none

/-- The notes of a listener from some notes on, after it was told of events one after the other.
What the session was at each of them is left open. -/
inductive Told (listener : Listener) : Array Note → List Event → Array Note → Prop
  | nil (notes : Array Note) : Told listener notes [] notes
  | cons {notes later : Array Note} {event : Event} {events : List Event} (session : Session) :
    Told listener (notes.push (.told event) ++ (listener.hears notes event session).2.toArray)
      events later →
    Told listener notes (event :: events) later

end Listener

end ClassFile
