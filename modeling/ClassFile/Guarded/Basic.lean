/-!
# Steps that can crash

The definitions of this library are total: what is not in a table is `none`, a text is a list
of characters, and numbers have no bounds. A program that works on positions in memory has
more to go wrong with. It takes the element at a position of an array, cuts a text between
two offsets in bytes, or computes with numbers of 64 bits, and each of these ends the program
if the position is out of range, an offset lies inside a character, or the result is too
large.

A `Guarded` step is one that can end in this way. The modules beside this one give the parts
of a decoder that work on positions once more as guarded steps. That none of them ever
crashes, and that they come to the same as the total definitions, is proved of each.
-/

namespace ClassFile

/-- A step with a state and faults that can crash. A crash leaves nothing behind. -/
abbrev Guarded (ε σ : Type) := ExceptT ε (StateT σ Option)

namespace Guarded

variable {ε σ α : Type}

/-- The end of the program. -/
def crash : Guarded ε σ α := fun _ => none

/-- What must be there. -/
def expect : Option α → Guarded ε σ α
  | some value => pure value
  | none => crash

/-- A step that cannot crash. -/
def sound (m : EStateM ε σ α) : Guarded ε σ α := fun s =>
  match m s with
  | .ok value t => some (.ok value, t)
  | .error fault t => some (.error fault, t)

end Guarded

end ClassFile
