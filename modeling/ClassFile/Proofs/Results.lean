import ClassFile.Record.Basic
import ClassFile.Signature.Descriptor

/-!
# The source name of a result

The source name of what a method returns is made from the text behind the last closing parenthesis
of its descriptor. The text is a type for the reader as soon as it begins like one
(`ClassFile.Signature.TakenFor`): behind the letter of a primitive type everything may follow, a
type variable passes for a class, and between the marks of a class may stand what will. So a
descriptor that is written from types gives the name of its result
(`ClassFile.Member.returnType_meaning`), and this holds for a class too as long as no closing
parenthesis is part of its name.
-/

namespace ClassFile

namespace Signature

/-- The part of a text behind its last closing parenthesis, or all of it where there is none. -/
inductive LastPart : List Char → List Char → Prop where
  | whole {chars : List Char} (unclosed : ')' ∉ chars) : LastPart chars chars
  | behind {front part : List Char} (unclosed : ')' ∉ part) : LastPart (front ++ ')' :: part) part

/-- Every text has such a part. -/
theorem LastPart.exists_of_chars (chars : List Char) : ∃ part, LastPart chars part := by
  induction chars with
  | nil => exact ⟨[], .whole List.not_mem_nil⟩
  | cons c rest ih =>
    obtain ⟨part, h⟩ := ih
    cases h with
    | @behind front part unclosed => exact ⟨part, @behind (c :: front) part unclosed⟩
    | whole unclosed =>
      by_cases hc : c = ')'
      · subst hc
        exact ⟨rest, @behind [] rest unclosed⟩
      · exact ⟨c :: rest, .whole (by simpa [Ne.symm hc] using unclosed)⟩

/-- The part of a longer text is that of its end, if a parenthesis stands before this. -/
theorem LastPart.append {chars part : List Char} (h : LastPart chars part) (front : List Char)
    (hopen : '(' ∈ front) :
    ∃ more, front ++ ')' :: chars = more ++ ')' :: part ∧ ')' ∉ part ∧ '(' ∈ more := by
  cases h with
  | whole unclosed => exact ⟨front, rfl, unclosed, hopen⟩
  | @behind between part unclosed =>
    exact ⟨front ++ ')' :: between, by rw [List.append_assoc, List.cons_append], unclosed,
      List.mem_append_left _ hopen⟩

/-- A text that is taken for a type, and the name that it gets. -/
inductive TakenFor : List Char → String → Prop where
  /-- Between the marks of a class or a type variable stands its name. -/
  | enclosed {mark : Char} (name : List Char) (hmark : mark = 'L' ∨ mark = 'T') :
    TakenFor (mark :: (name ++ [';'])) (dotted name)
  /-- What follows the letter of a primitive type is not looked at. -/
  | keyword (type : Primitive) (tail : List Char) : TakenFor (type.letter :: tail) type.keyword
  /-- A bracket makes an array of what follows. -/
  | array {part : List Char} {name : String} (element : TakenFor part name) :
    TakenFor ('[' :: part) (name ++ "[]")

theorem FieldType.takenFor (type : FieldType) : TakenFor type.chars type.sourceName := by
  induction type with
  | primitive type _ => exact .keyword type []
  | array element ih => exact .array ih
  | object name => exact .enclosed name.chars (.inl rfl)

theorem ReturnType.takenFor (result : ReturnType) : TakenFor result.chars result.sourceName := by
  cases result with
  | void => exact .keyword .void []
  | value type => exact type.takenFor

/-! ### Parts and their names -/

theorem keyword?_eq_some_iff {c : Char} {word : String} :
    keyword? c = some word ↔ ∃ type : Primitive, type.letter = c ∧ type.keyword = word := by
  constructor
  · intro h
    rw [keyword?.eq_def] at h
    split at h
    · exact ⟨.void, rfl, Option.some.inj h⟩
    · exact ⟨.byte, rfl, Option.some.inj h⟩
    · exact ⟨.char, rfl, Option.some.inj h⟩
    · exact ⟨.int, rfl, Option.some.inj h⟩
    · exact ⟨.short, rfl, Option.some.inj h⟩
    · exact ⟨.double, rfl, Option.some.inj h⟩
    · exact ⟨.float, rfl, Option.some.inj h⟩
    · exact ⟨.long, rfl, Option.some.inj h⟩
    · exact ⟨.boolean, rfl, Option.some.inj h⟩
    · cases h
  · rintro ⟨type, rfl, rfl⟩
    cases type <;> rfl

theorem isEnclosed_iff {c : Char} {rest : List Char} :
    isEnclosed (c :: rest) = true ↔ (c = 'L' ∨ c = 'T') ∧ ∃ name, rest = name ++ [';'] := by
  rw [isEnclosed, Bool.and_eq_true, Bool.or_eq_true]
  simp only [List.head?_cons, Option.some.injEq, decide_eq_true_eq, List.getLast?_eq_some_iff]
  refine and_congr_right fun hmark =>
    ⟨fun ⟨front, h⟩ => ?_, fun ⟨name, h⟩ => ⟨c :: name, by rw [h]; rfl⟩⟩
  cases front with
  | nil =>
    obtain ⟨rfl, -⟩ := List.cons.inj h
    rcases hmark with h | h <;> cases h
  | cons first name => exact ⟨name, (List.cons.inj h).2⟩

theorem sourceTypeOf_enclosed {mark : Char} (name : List Char) (hmark : mark = 'L' ∨ mark = 'T') :
    sourceTypeOf (mark :: (name ++ [';'])) = .ok (dotted name) := by
  rw [sourceTypeOf, if_pos (isEnclosed_iff.2 ⟨hmark, name, rfl⟩), List.dropLast_concat, dotted]

theorem not_isEnclosed {c : Char} (hclass : c ≠ 'L') (hvariable : c ≠ 'T') (rest : List Char) :
    ¬isEnclosed (c :: rest) = true := by
  rw [isEnclosed_iff]
  exact fun h => h.1.elim hclass hvariable

/-- **A text has a name exactly if it is taken for a type, and that of the type.** -/
theorem sourceTypeOf_eq_ok_iff {chars : List Char} {name : String} :
    sourceTypeOf chars = .ok name ↔ TakenFor chars name := by
  constructor
  · intro h
    fun_induction sourceTypeOf chars generalizing name with
    | case1 => cases h
    | case2 c rest henclosed =>
      obtain ⟨hmark, part, rfl⟩ := isEnclosed_iff.1 henclosed
      rw [List.dropLast_concat] at h
      cases h
      exact .enclosed part hmark
    | case3 rest _ ih =>
      cases helement : sourceTypeOf rest with
      | error fault =>
        rw [helement] at h
        cases h
      | ok element =>
        rw [helement] at h
        cases h
        exact .array (ih helement)
    | case4 c rest _ _ word hword =>
      cases h
      obtain ⟨type, rfl, rfl⟩ := keyword?_eq_some_iff.1 hword
      exact .keyword type rest
    | case5 => cases h
  · intro h
    induction h with
    | enclosed name hmark => exact sourceTypeOf_enclosed name hmark
    | keyword type tail =>
      -- only the first letter is looked at, whatever stands behind it
      have hletter : type.letter ≠ 'L' ∧ type.letter ≠ 'T' ∧ type.letter ≠ '[' := by
        cases type <;> decide
      rw [sourceTypeOf, if_neg (not_isEnclosed hletter.1 hletter.2.1 tail), if_neg hletter.2.2,
        keyword?_eq_some_iff.2 ⟨type, rfl, rfl⟩]
    | array _ ih =>
      rw [sourceTypeOf, if_neg (not_isEnclosed (by decide) (by decide) _), if_pos rfl, ih]
      rfl

/-- A text that has no name is at fault itself. -/
theorem kind_of_sourceTypeOf {chars : List Char} {fault : Fault}
    (h : sourceTypeOf chars = .error fault) : fault.kind = .format := by
  fun_induction sourceTypeOf chars with
  | case1 | case5 =>
    cases h
    rfl
  | case2 | case4 => cases h
  | case3 rest _ ih =>
    cases helement : sourceTypeOf rest with
    | ok element =>
      rw [helement] at h
      cases h
    | error why =>
      rw [helement] at h
      cases h
      exact ih helement

theorem returnPart_eq {front part : List Char} (hopen : '(' ∈ front) (hpart : ')' ∉ part) :
    returnPart (String.ofList (front ++ ')' :: part)) =
      if part = [] then .error (.method (String.ofList (front ++ ')' :: part)) .notMethod)
      else .ok (String.ofList part) := by
  have htake : ((front ++ ')' :: part).reverse.takeWhile (· ≠ ')')).reverse = part := by
    have hkeep : ∀ c ∈ part.reverse, decide (c ≠ ')') = true := fun c hc =>
      decide_eq_true fun h => hpart (h ▸ List.mem_reverse.1 hc)
    rw [List.reverse_append, List.reverse_cons, List.append_assoc,
      List.takeWhile_append_of_pos hkeep]
    simp
  have hclosed : (front ++ ')' :: part).contains ')' = true := by simp
  have hopened : (front ++ ')' :: part).contains '(' = true := by simp [hopen]
  rw [returnPart, String.toList_ofList, htake, hclosed, hopened]
  by_cases hempty : part = []
  · rw [if_pos hempty, if_neg (fun h => h.2.2 hempty)]
  · rw [if_neg hempty, if_pos ⟨rfl, rfl, hempty⟩]

theorem not_takenFor_nil {name : String} : ¬TakenFor [] name := nofun

/-- What is said of a text in which the types of parameters stand in front. -/
theorem returnType_of_lastPart {front chars part : List Char} (hopen : '(' ∈ front)
    (hpart : LastPart chars part) :
    (∀ name, returnType (String.ofList (front ++ ')' :: chars)) = .ok name ↔ TakenFor part name) ∧
      ∀ fault, returnType (String.ofList (front ++ ')' :: chars)) = .error fault →
        fault.kind = .format := by
  obtain ⟨more, hmore, hunclosed, hopen⟩ := hpart.append front hopen
  rw [hmore, returnType, returnPart_eq hopen hunclosed]
  by_cases hempty : part = []
  · subst hempty
    exact ⟨fun name => ⟨nofun, fun h => absurd h not_takenFor_nil⟩, fun fault h => by cases h; rfl⟩
  · rw [if_neg hempty]
    have hsource : sourceType (String.ofList part) = sourceTypeOf part := by
      rw [sourceType, String.toList_ofList]
    exact ⟨fun name => by rw [← sourceTypeOf_eq_ok_iff, ← hsource]; rfl,
      fun fault h => kind_of_sourceTypeOf (hsource.symm.trans h)⟩

end Signature

/-- The member with another descriptor and without a signature. -/
def Member.described (member : Member) (descriptor : String) : Member :=
  { member with descriptor, signature := none }

open Signature

/-- **The source name of what a method returns.** A descriptor that is written from types gives the
name of its result, if that has no closing parenthesis in it. Whatever stands in the place of the
result, only the part behind its last closing parenthesis counts: it is taken for a type, or the
descriptor is at fault. -/
theorem Member.returnType_meaning (member : Member) (parameters : List FieldType) :
    (∀ result : ReturnType, ')' ∉ result.chars →
      (member.described (MethodDescriptor.mk parameters result).text).returnType =
        .ok result.sourceName) ∧
      ∀ chars : List Char, ∃ part, LastPart chars part ∧
        let outcome := (member.described
          (String.ofList ('(' :: (parameters.flatMap FieldType.chars ++ ')' :: chars)))).returnType
        (∀ name, outcome = .ok name ↔ TakenFor part name) ∧
          ∀ fault, outcome = .error fault → fault.kind = .format := by
  have hopen : '(' ∈ '(' :: parameters.flatMap FieldType.chars := List.mem_cons_self
  have hdescribed (text : String) :
      (member.described text).returnType = Signature.returnType text := rfl
  refine ⟨fun result hresult => ?_, fun chars => ?_⟩
  · rw [hdescribed, MethodDescriptor.text, MethodDescriptor.chars, ← List.cons_append]
    exact ((returnType_of_lastPart hopen (.whole hresult)).1 result.sourceName).2 result.takenFor
  · obtain ⟨part, hpart⟩ := LastPart.exists_of_chars chars
    rw [hdescribed, ← List.cons_append]
    exact ⟨part, hpart, returnType_of_lastPart hopen hpart⟩

/-- A method that has no parameters. -/
def getter : Member :=
  { kind := .method [], access := ⟨0⟩, name := "items", descriptor := "()V" }

/-- The result `java.util.List[]` is read from the descriptor of a method with a parameter, by the
name that the type has in a source. -/
theorem Member.returnType_meaning_of_list :
    let list : ClassName := ⟨⟨"java/util/List".toList, by simp, by simp⟩, by simp⟩
    ')' ∉ (ReturnType.value (.array (.object list))).chars ∧
      (getter.described "(I)[Ljava/util/List;").returnType = .ok "java.util.List[]" := by
  intro list
  refine ⟨by decide, ?_⟩
  exact (Member.returnType_meaning getter [.primitive .int nofun]).1
    (.value (.array (.object list))) (by decide)

/-- The name of a class may have a closing parenthesis in it, and then the rest of the name is taken
for the result. A type variable passes for a class, and one letter for a type with anything behind
it. -/
theorem Member.returnType_differs_of_parenthesis :
    let closing : ClassName := ⟨⟨"a)I".toList, by simp, by simp⟩, by simp⟩
    let descriptor : MethodDescriptor := ⟨[], .value (.object closing)⟩
    (getter.described descriptor.text).returnType = .ok "int" ∧
      descriptor.result.sourceName = "a)I" ∧
      ((getter.described "()TX;").returnType = .ok "X" ∧
        ∀ result : ReturnType, result.chars ≠ "TX;".toList) ∧
      (getter.described "()II").returnType = .ok "int" ∧
        ∀ result : ReturnType, result.chars ≠ "II".toList := by
  refine ⟨rfl, rfl, ⟨rfl, ?_⟩, rfl, ?_⟩
  · rintro (_ | ⟨type, _⟩ | element | name) h
    · cases h
    · cases type <;> cases h
    · cases h
    · cases h
  · rintro (_ | ⟨type, _⟩ | element | name) h
    · cases h
    · cases type <;> cases h
    · cases h
    · cases h

end ClassFile
