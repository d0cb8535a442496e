import ClassFile.Name.TypeName

/-!
# Packages

The package of a type is what stands before the last slash of its element's name. All
primitive types share one package, which belongs to no class.

Packages are handed out in two ways. `Namer.exact` computes the package of a type. The
usual way, `Namer.shared`, files every package under its name, the primitive one under
the name `=primitive`, and hands out what the first request filed. An ordinary package
of that very name shares the entry, and whichever came first answers for both. Of the
whole file that one entry is the only part that an answer can show, so `PackageTable`
holds nothing else.
-/

namespace ClassFile

/-- A package, by its binary name. -/
structure Package where
  binary : String
  primitive : Bool
  deriving DecidableEq, Repr

namespace Package

/-- Packages are ordered by name, and the primitive one comes after an ordinary one of
the same name. -/
instance : Ord Package := ⟨compareLex (compareOn Package.binary) (compareOn Package.primitive)⟩

instance : Std.TransOrd Package :=
  inferInstanceAs
    (Std.TransCmp (compareLex (compareOn Package.binary) (compareOn Package.primitive)))

instance : Std.LawfulEqOrd Package where
  eq_of_compare {a b} h := by
    obtain ⟨hbinary, hprimitive⟩ := Ordering.then_eq_eq.1 h
    have hbinary : a.binary = b.binary := Std.LawfulEqOrd.eq_of_compare hbinary
    have hprimitive : a.primitive = b.primitive := Std.LawfulEqOrd.eq_of_compare hprimitive
    cases a; cases b
    simp_all

/-- The package of the primitive types. -/
def ofPrimitives : Package := ⟨"", true⟩

/-- What stands before the last slash; nothing if there is no slash. -/
def beforeSlash (chars : List Char) : List Char :=
  (chars.reverse.dropWhile (· ≠ '/')).tail.reverse

theorem beforeSlash_of_not_mem {chars : List Char} (h : '/' ∉ chars) :
    beforeSlash chars = [] := by
  have hall : ∀ c ∈ chars.reverse, decide (c ≠ '/') = true := fun c hc =>
    decide_eq_true (ne_of_mem_of_not_mem (List.mem_reverse.1 hc) h)
  rw [beforeSlash, ← List.append_nil chars.reverse, List.dropWhile_append_of_pos hall]
  rfl

theorem beforeSlash_append (front : List Char) {back : List Char} (h : '/' ∉ back) :
    beforeSlash (front ++ '/' :: back) = front := by
  have hall : ∀ c ∈ back.reverse, decide (c ≠ '/') = true := fun c hc =>
    decide_eq_true (ne_of_mem_of_not_mem (List.mem_reverse.1 hc) h)
  rw [beforeSlash, List.reverse_append, List.reverse_cons, List.append_assoc,
    List.dropWhile_append_of_pos hall]
  exact List.reverse_reverse front

/-- A text with a slash is cut at the last one. -/
theorem eq_beforeSlash_append {chars : List Char} (h : '/' ∈ chars) :
    ∃ back, '/' ∉ back ∧ chars = beforeSlash chars ++ '/' :: back := by
  obtain ⟨back, front, heq, hback⟩ := List.eq_append_cons_of_mem (List.mem_reverse.2 h)
  have hchars : chars = front.reverse ++ '/' :: back.reverse := by
    rw [← List.reverse_reverse chars, heq, List.reverse_append, List.reverse_cons,
      List.append_assoc]
    rfl
  have hreverse : '/' ∉ back.reverse := mt List.mem_reverse.1 hback
  refine ⟨back.reverse, hreverse, ?_⟩
  rw [hchars, beforeSlash_append _ hreverse]

/-- The package of a type. -/
def ofType (type : TypeName) : Package :=
  let element := (type.element?.getD type.binary).toList
  if TypeName.isPrimitiveLetter element then ofPrimitives
  else ⟨String.ofList (beforeSlash element), false⟩

/-- The primitive types have one package, so only that package is a primitive one. -/
theorem eq_ofPrimitives {type : TypeName} (h : (ofType type).primitive = true) :
    ofType type = ofPrimitives := by
  rw [ofType] at h ⊢
  split at h
  · rename_i hletter
    rw [if_pos hletter]
  · cases h

/-- The name with dots; the package without a name is written as a dot. -/
def dotted (package : Package) : String :=
  if package.binary = "" then "."
  else String.ofList (package.binary.toList.map fun c => if c = '/' then '.' else c)

/-- Whether this is the package without a name. -/
def isDefault (package : Package) : Bool :=
  !package.primitive && package.binary = ""

/-- Whether the package is `java` or lies below it. -/
def isJava (package : Package) : Bool :=
  "java/".toList.isPrefixOf package.binary.toList || package.binary = "java"

end Package

/-- A set of packages. Two sets with the same members are equal. -/
abbrev PackageSet := Std.ExtTreeSet Package

/-- Who holds the entry named `=primitive`. -/
structure PackageTable where
  holder : Option Package := none
  deriving DecidableEq, Repr

namespace PackageTable

/-- The name under which the primitive package is filed. -/
def primitiveKey : String := "=primitive"

/-- Hands out a package under its name. -/
def handOut (table : PackageTable) (package : Package) : Package × PackageTable :=
  if package.primitive ∨ package.binary = primitiveKey then
    match table.holder with
    | some holder => (holder, table)
    | none => (package, ⟨some package⟩)
  else (package, table)

end PackageTable

/-- A way of handing out the packages of types. -/
structure Namer where
  packageOf : TypeName → PackageTable → Package × PackageTable

namespace Namer

/-- The package of a type is a function of the type alone. -/
def exact : Namer where
  packageOf type table := (.ofType type, table)

/-- Packages are filed by name, and the first of a name answers for it. -/
def shared : Namer where
  packageOf type table := table.handOut (.ofType type)

end Namer

end ClassFile
