import Mathlib.Data.List.Forall2
import ClassFile.Layout.Annotations

/-!
# What the values of elements stand for

A value that is written in a class file is a tree, whose leaves are indices of the pool. If the pool
has what the tags of the leaves ask for, the tree stands for a value
(`ClassFile.RawValue.StandsFor`). This says nothing about how deep the tree is; that is its depth
(`ClassFile.RawValue.depth`), and a tree of any depth can be written
(`ClassFile.RawValue.wholeForm`).

In an annotation a name may be given several values. It keeps the place of the first and the last of
the values (`ClassFile.Annotation.settle`).
-/

namespace ClassFile

/-- What elements come to that are given one after the other: each name at its first place, with the
last of its values. -/
def Annotation.settle (given : List (String × Value)) : List (String × Value) :=
  (given.map Prod.fst).eraseDups.filterMap fun name =>
    given.reverse.find? fun element => element.1 = name

/-- The text at an index names a type. Where the annotation is visible at run time, it is a
descriptor. -/
def Pool.Describes (pool : Pool) (retention : Retention) (index : UInt16) (type : TypeName) :
    Prop :=
  ∃ text, pool.utf8 index = .ok text ∧ type = .ofText text ∧
    (retention = .runtime → (Signature.scan text).fault = none)

namespace RawValue

/-! ### Depth -/

mutual

/-- How many arrays and annotations there are at most around a value inside of the value. -/
def depth : RawValue → Nat
  | .constant _ _ | .enumConstant _ _ | .classLiteral _ => 0
  | .nested _ elements => depthOfElements elements
  | .array values => depthOfValues values

/-- The same for a value inside of an annotation with the elements, which is around it. -/
def depthOfElements : List (UInt16 × RawValue) → Nat
  | [] => 0
  | (_, value) :: elements => max (depth value + 1) (depthOfElements elements)

/-- The same for a value inside of an array of the values, which is around it. -/
def depthOfValues : List RawValue → Nat
  | [] => 0
  | value :: values => max (depth value + 1) (depthOfValues values)

end

theorem depthOfElements_le_iff {elements : List (UInt16 × RawValue)} {levels : Nat} :
    depthOfElements elements ≤ levels ↔ ∀ element ∈ elements, element.2.depth < levels := by
  induction elements with
  | nil => simp [depthOfElements]
  | cons element elements ih =>
    rw [depthOfElements, Nat.max_le, ih, List.forall_mem_cons, Nat.lt_iff_add_one_le]

theorem depthOfValues_le_iff {values : List RawValue} {levels : Nat} :
    depthOfValues values ≤ levels ↔ ∀ value ∈ values, value.depth < levels := by
  induction values with
  | nil => simp [depthOfValues]
  | cons value values ih =>
    rw [depthOfValues, Nat.max_le, ih, List.forall_mem_cons, Nat.lt_iff_add_one_le]

/-- A value with as many levels as it has. -/
def wholeForm : Form RawValue where
  encode raw := (form (raw.depth + 1)).encode raw
  Fits raw := (form (raw.depth + 1)).Fits raw

/-- What follows a tag depends on the values inside only. -/
theorem encode_tail_congr {form form' : Form RawValue} {raw : RawValue}
    (h : ∀ value, value.depth < raw.depth → form.encode value = form'.encode value) :
    (tail form).encode raw = (tail form').encode raw := by
  cases raw with
  | constant | enumConstant | classLiteral => rfl
  | nested type elements =>
    have hinside := depthOfElements_le_iff.1 (Nat.le_refl (depthOfElements elements))
    refine congrArg (Form.u2.encode type ++ ·) ?_
    refine congrArg (Form.count.encode elements.length ++ ·) ?_
    refine List.flatMap_congr fun element helement => ?_
    exact congrArg (Form.u2.encode element.1 ++ ·) (h element.2 (hinside element helement))
  | array values =>
    have hinside := depthOfValues_le_iff.1 (Nat.le_refl (depthOfValues values))
    refine congrArg (Form.count.encode values.length ++ ·) ?_
    exact List.flatMap_congr fun value hvalue => h value (hinside value hvalue)

/-- Levels that a value does not have do not show: a value is written with the same bytes however
many levels it might have had. -/
theorem encode_form {levels : Nat} {raw : RawValue} (h : raw.depth < levels) :
    (form levels).encode raw = wholeForm.encode raw := by
  induction levels using Nat.strongRecOn generalizing raw with
  | ind levels ih =>
    cases levels with
    | zero => exact absurd h (Nat.not_lt_zero _)
    | succ levels =>
      refine congrArg (Form.u1.encode raw.tag ++ ·) (encode_tail_congr fun value hvalue => ?_)
      have hinside : value.depth < levels := Nat.lt_of_lt_of_le hvalue (Nat.le_of_lt_succ h)
      exact (ih levels (Nat.lt_succ_self levels) hinside).trans (ih raw.depth h hvalue).symm

/-- A value is its tag and what follows, where each value inside is written in the same way. -/
theorem encode_wholeForm (raw : RawValue) :
    wholeForm.encode raw = Form.u1.encode raw.tag ++ (tail wholeForm).encode raw :=
  congrArg (Form.u1.encode raw.tag ++ ·) (encode_tail_congr fun _ h => encode_form h)

/-! ### Meaning -/

/-- The value of an entry of the pool, under the letter of a tag. -/
def ofEntry : (letter : Char) → Entry → Option Value
  | 'B', .integer n | 'C', .integer n | 'I', .integer n | 'S', .integer n => some (.int n)
  | 'Z', .integer n => some (.boolean (n != 0))
  | 'J', .long n => some (.long n)
  | 'F', .float bits => some (.float bits)
  | 'D', .double bits => some (.double bits)
  | 's', .utf8 text => some (.string text)
  | _, _ => none

/-- The value that a tree stands for, by the pool. An array and an annotation have no more values
than can be counted in two bytes. -/
inductive StandsFor (pool : Pool) (site : Site) (retention : Retention) : RawValue → Value → Prop
  where
  | constant {tag : UInt8} {index : UInt16} {entry : Entry} {value : Value} :
    pool.entry index = .ok entry → ofEntry (Char.ofNat tag.toNat) entry = some value →
    StandsFor pool site retention (.constant tag index) value
  | enumConstant {index nameIndex : UInt16} {type : TypeName} {name : String} :
    pool.Describes retention index type → pool.utf8 nameIndex = .ok name →
    StandsFor pool site retention (.enumConstant index nameIndex) (.enumConstant type name)
  | classLiteral {index : UInt16} {type : TypeName} : pool.Describes retention index type →
    StandsFor pool site retention (.classLiteral index) (.classLiteral type)
  | nested {index : UInt16} {type : TypeName} {elements : List (UInt16 × RawValue)}
    {given : List (String × Value)} : pool.Describes retention index type →
    elements.length < UInt16.size →
    List.Forall₂ (fun raw element => pool.utf8 raw.1 = .ok element.1) elements given →
    List.Forall₂ (fun raw element => StandsFor pool site retention raw.2 element.2) elements given →
    StandsFor pool site retention (.nested index elements)
      (.nested type retention site <| Annotation.settle given)
  | array {raws : List RawValue} {values : List Value} : raws.length < UInt16.size →
    List.Forall₂ (StandsFor pool site retention) raws values →
    StandsFor pool site retention (.array raws) (.array values)

end RawValue

namespace RawAnnotation

/-- An annotation whose values have as many levels as they have. -/
def wholeForm : Form RawAnnotation := RawValue.wholeForm.annotation

/-- The annotation that is written, by the pool. -/
def StandsFor (pool : Pool) (site : Site) (retention : Retention) (raw : RawAnnotation)
    (found : Annotation) : Prop :=
  (RawValue.nested raw.type raw.elements).StandsFor pool site retention found.toValue

end RawAnnotation

end ClassFile
