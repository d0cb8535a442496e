import ClassFile.Fault

/-!
# The constant pool

The numbered table of constants at the front of a class file, and the questions that
are asked of it. An index outside the table and an entry of the wrong kind are two
different faults; both name the index.

A class constant can be marked as referred to. One that no member reference names, an
*orphan*, is used by instructions only.
-/

namespace ClassFile

/-- A table of constants. Slot zero is there and never used. -/
structure Pool where
  entries : Array Entry
  deriving DecidableEq, Repr

namespace Pool

/-- A pool without any slot. -/
def empty : Pool := ⟨#[]⟩

instance : Inhabited Pool := ⟨empty⟩

/-- The pool without its slots. -/
def cleared (pool : Pool) : Pool := { pool with entries := #[] }

@[simp]
theorem cleared_eq_empty (pool : Pool) : pool.cleared = empty := rfl

/-- The number of slots, slot zero included. -/
def size (pool : Pool) : Nat := pool.entries.size

/-- Whether no slot but slot zero is there. -/
def isEmpty (pool : Pool) : Bool := pool.size ≤ 1

/-- The entry at an index. -/
def entry (pool : Pool) (index : UInt16) : Except Fault Entry :=
  match pool.entries[index.toNat]? with
  | some entry => .ok entry
  | none => .error (.indexOutOfRange index)

/-- The text at an index. -/
def utf8 (pool : Pool) (index : UInt16) : Except Fault String := do
  match ← pool.entry index with
  | .utf8 text => return text
  | found => throw (.wrongEntry .utf8 index found)

/-- The name of the class at an index. -/
def className (pool : Pool) (index : UInt16) : Except Fault String := do
  match ← pool.entry index with
  | .classInfo name _ => pool.utf8 name
  | found => throw (.wrongEntry .classInfo index found)

/-- The name and the descriptor at an index. -/
def nameAndType (pool : Pool) (index : UInt16) : Except Fault (String × String) := do
  match ← pool.entry index with
  | .nameAndType name descriptor => return (← pool.utf8 name, ← pool.utf8 descriptor)
  | found => throw (.wrongEntry .nameAndType index found)

/-- A method that a reference names: its class, its name and its descriptor. -/
structure MethodName where
  owner : String
  name : String
  descriptor : String
  deriving DecidableEq, Repr

/-- The method that the reference at an index names, of a class or an interface. -/
def methodRef (pool : Pool) (index : UInt16) : Except Fault MethodName := do
  match ← pool.entry index with
  | .ref .field owner member => throw (.wrongEntry .methodRef index (.ref .field owner member))
  | .ref _ owner member =>
    let owner ← pool.className owner
    let (name, descriptor) ← pool.nameAndType member
    return ⟨owner, name, descriptor⟩
  | found => throw (.wrongEntry .methodRef index found)

/-- The text of the string constant at an index, if there is one. -/
def stringConstant (pool : Pool) (index : UInt16) : Option String :=
  match pool.entries[index.toNat]? with
  | some (.string text) => (pool.utf8 text).toOption
  | _ => none

/-- Marks the class constant at an index as referred to. Its name is given the first
time only, and not at all if the constant names no text. -/
def markReferred (pool : Pool) (index : UInt16) : Option String × Pool :=
  match pool.entries[index.toNat]? with
  | some (.classInfo name false) =>
    let marked := ⟨pool.entries.setIfInBounds index.toNat (.classInfo name true)⟩
    ((marked.utf8 name).toOption, marked)
  | _ => (none, pool)

/-- Whether some class constant is not marked as referred to. -/
def hasOrphan (pool : Pool) : Bool :=
  pool.entries.any fun
    | .classInfo _ false => true
    | _ => false

/-- Whether the entry at an index is a method reference with this name. References of
interface methods do not count, and neither do those that lead nowhere. -/
def namesMethod (pool : Pool) (method : MethodName) (index : UInt16) : Bool :=
  match pool.entry index with
  | .ok (.ref .method _ _) =>
    match pool.methodRef index with
    | .ok found => found = method
    | .error _ => false
  | _ => false

/-- The least index of a method reference with this name. -/
def findMethod (pool : Pool) (method : MethodName) : Option UInt16 :=
  ((List.range pool.size).drop 1).findSome? fun index =>
    if pool.namesMethod method (UInt16.ofNat index) then some (UInt16.ofNat index) else none

@[simp]
theorem size_markReferred (pool : Pool) (index : UInt16) :
    (pool.markReferred index).2.size = pool.size := by
  unfold markReferred
  split <;> simp [size]

end Pool

end ClassFile
