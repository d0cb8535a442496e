import ClassFile.Name.Package
import ClassFile.Signature.Scan
import Mathlib.Data.List.TakeWhile

/-!
# Names in texts

A name is found in a text in two ways. `ClassFile.Signature.scan` reads a text for the names in it,
which have no semicolon inside (`ClassFile.Signature.Scanner.Clean`). And
`ClassFile.TypeName.ofText` takes a text as a whole for a name, with one enclosure `L…;` taken off.
Of a plain descriptor the scan finds the name of the class, and nothing else
(`ClassFile.Signature.scan_of_class`), and as a whole it is in the package of that class
(`ClassFile.Package.ofType_ofText_of_class`).

An array refers to its innermost element, of which two enclosures are taken off. What is left can
be an array again, if it stood in one of them (`ClassFile.TypeName.isArray_referent_iff`).
-/

namespace ClassFile

namespace Signature

namespace Scanner

/-! ### The names that a scan finds -/

/-- No name that was found, and none that is being read, has a semicolon. -/
structure Clean (s : Scanner) : Prop where
  found : ∀ name ∈ s.found, ';' ∉ name.toList
  mode : ∀ reversed, s.mode = .name reversed → ';' ∉ reversed
  stack : ∀ reversed, Frame.named reversed ∈ s.stack → ';' ∉ reversed

namespace Clean

variable {s next : Scanner} {c : Char}

/-- One character does not bring a semicolon into a name: it ends it. The cases are those in which a
scanner moves. -/
theorem moves (hmoves : s.Moves c next) (h : s.Clean) : next.Clean := by
  cases hmoves with
  | turn ground hmode =>
    exact ⟨h.found, fun reversed hname => absurd hname (hmode reversed), h.stack⟩
  | enter hlimit hframe =>
    refine ⟨h.found, nofun, fun reversed hmem => ?_⟩
    rcases List.mem_cons.1 hmem with hsame | hmem
    · exact h.mode reversed (hframe reversed hsame.symm)
    · exact h.stack reversed hmem
  | leave hstack hmode =>
    refine ⟨h.found, fun reversed hname => ?_, fun reversed hmem => ?_⟩
    · exact h.stack reversed (hstack ▸ hmode reversed hname ▸ List.mem_cons_self)
    · exact h.stack reversed (hstack ▸ List.mem_cons_of_mem _ hmem)
  | begin =>
    refine ⟨h.found, fun reversed hname => ?_, h.stack⟩
    cases hname
    exact List.not_mem_nil
  | @extend reversed hmode hend =>
    refine ⟨h.found, fun other hname => ?_, h.stack⟩
    cases hname
    rw [List.mem_cons, not_or]
    refine ⟨fun hsame => ?_, h.mode reversed hmode⟩
    split at hsame
    · exact absurd hsame (by decide)
    · exact hend hsame.symm
  | @found reversed hmode =>
    refine ⟨fun name hname => ?_, fun other hother => absurd hother (afterType_ne_name _ other),
      h.stack⟩
    rcases List.mem_cons.1 hname with rfl | hname
    · rw [String.toList_ofList, List.mem_reverse]
      exact h.mode reversed hmode
    · exact h.found name hname

/-- And so no text brings one, by the same for each of its characters. -/
theorem run (h : s.Clean) (rest : List Char) : (s.run rest).1.Clean :=
  run_keeps (fun _ _ _ => moves) rest h

end Clean

end Scanner

/-- No class that a text names has a semicolon in its name. So if there is one in a reference, then
it came there from a text that was taken as a whole. -/
theorem not_mem_of_mem_names {text name : String} (h : name ∈ (scan text).names) :
    ';' ∉ name.toList := by
  have hinitial : Scanner.initial.Clean := ⟨nofun, nofun, nofun⟩
  exact (hinitial.run text.toList).found name (List.mem_reverse.1 h)

/-! ### Plain descriptors -/

/-- A name of a class that no mark interrupts, and that is not the letter of a primitive type. -/
structure IsPlainName (name : List Char) : Prop where
  ne_nil : name ≠ []
  unmarked : ∀ mark ∈ ['.', ';', '[', '<'], mark ∉ name
  letter : TypeName.isPrimitiveLetter name = false

/-- The text is the descriptor of a class that has a plain name, or of an array of such a class. -/
def DescribesClass (text : String) : Prop :=
  ∃ brackets name, IsPlainName name ∧
    text.toList = List.replicate brackets '[' ++ 'L' :: (name ++ [';'])

namespace Scanner

/-- A scan that has found nothing yet, outside of everything. -/
def before (mode : Mode) : Scanner := ⟨.results, [], mode, []⟩

/-- A scanner that takes a character goes on with the rest. -/
theorem run_of_step {s next : Scanner} {c : Char} (h : s.step c = .ok next) (rest : List Char) :
    s.run (c :: rest) = next.run rest := by
  rw [run, h]

/-- The brackets of an array are passed over, up to the letter in front of the name. -/
theorem run_brackets (brackets : Nat) (rest : List Char) {mode : Mode}
    (hmode : mode = .start ∨ mode = .type) :
    (before mode).run (List.replicate brackets '[' ++ 'L' :: rest) =
      (before (.name [])).run rest := by
  induction brackets generalizing mode with
  | zero => rcases hmode with rfl | rfl <;> exact run_of_step rfl rest
  | succ brackets ih =>
    have hbracket : (before mode).step '[' = .ok (before .type) := by
      rcases hmode with rfl | rfl <;> rfl
    exact (run_of_step hbracket _).trans (ih (.inr rfl))

/-- The characters of a plain name are put together one after the other, in reverse. -/
theorem run_name {name : List Char} (h : ∀ mark ∈ ['.', ';', '[', '<'], mark ∉ name)
    (reversed rest : List Char) : (before (.name reversed)).run (name ++ rest) =
      (before (.name (name.reverse ++ reversed))).run rest := by
  induction name generalizing reversed with
  | nil => rfl
  | cons c name ih =>
    have hmark (mark : Char) (hmark : mark ∈ ['.', ';', '[', '<']) : c ≠ mark := fun hsame =>
      h mark hmark (hsame ▸ List.mem_cons_self)
    have hstep : (before (.name reversed)).step c = .ok (before (.name (c :: reversed))) := by
      change (if c = ';' then _ else if c = '<' then _ else
        Except.ok (before (.name ((if c = '.' then '$' else c) :: reversed)))) = _
      rw [if_neg (hmark ';' (by decide)), if_neg (hmark '<' (by decide)),
        if_neg (hmark '.' (by decide))]
    rw [List.cons_append, run_of_step hstep, ih, List.reverse_cons, List.append_assoc]
    · rfl
    · exact fun mark hmark hname => h mark hmark (List.mem_cons_of_mem c hname)

end Scanner

/-- **Of a plain descriptor the name of the class is found**, and nothing else: however many
brackets stand in front, the scan gives one name and no fault. -/
theorem scan_of_class {text : String} {brackets : Nat} {name : List Char} (h : IsPlainName name)
    (htext : text.toList = List.replicate brackets '[' ++ 'L' :: (name ++ [';'])) :
    (scan text).names = [String.ofList name] := by
  have hlast : (Scanner.before (.name name.reverse)).step ';' =
      .ok ⟨.results, [], .item, [String.ofList name]⟩ := by
    change (if name.reverse = [] then _ else Except.ok (Scanner.mk .results [] .item
      [String.ofList name.reverse.reverse])) = _
    rw [if_neg (by simpa using h.ne_nil), List.reverse_reverse]
  have hend : (Scanner.before (.name name.reverse)).run [';'] =
      (Scanner.mk .results [] .item [String.ofList name], none) := Scanner.run_of_step hlast []
  have hrun : Scanner.initial.run text.toList =
      (Scanner.mk .results [] .item [String.ofList name], none) :=
    calc Scanner.initial.run text.toList
      _ = (Scanner.before .start).run (List.replicate brackets '[' ++ 'L' :: (name ++ [';'])) := by
        rw [htext]
        rfl
      _ = (Scanner.before (.name [])).run (name ++ [';']) := Scanner.run_brackets _ _ (.inl rfl)
      _ = (Scanner.before (.name (name.reverse ++ []))).run [';'] := Scanner.run_name h.unmarked _ _
      _ = _ := by rw [List.append_nil, hend]
  rw [scan, hrun]
  rfl

end Signature

/-! ### Enclosures -/

namespace TypeName

/-- An enclosure is taken off, or there is none and the name stays as it is. -/
theorem unwrapped_eq (chars : List Char) :
    (∃ inner, chars = 'L' :: (inner ++ [';']) ∧ unwrapped chars = inner) ∨
      (∀ inner, chars ≠ 'L' :: (inner ++ [';'])) ∧ unwrapped chars = chars := by
  unfold unwrapped
  split
  · rename_i rest
    split
    · rename_i hlast
      obtain ⟨inner, rfl⟩ := List.getLast?_eq_some_iff.1 hlast
      exact .inl ⟨inner, rfl, List.dropLast_concat⟩
    · rename_i hlast
      refine .inr ⟨fun inner hinner => hlast ?_, rfl⟩
      rw [(List.cons.inj hinner).2, List.getLast?_concat]
  · rename_i hother
    exact .inr ⟨fun inner hinner => hother _ hinner, rfl⟩

theorem unwrapped_subset (chars : List Char) : unwrapped chars ⊆ chars := by
  rcases unwrapped_eq chars with ⟨inner, rfl, hinner⟩ | ⟨-, hsame⟩
  · rw [hinner]
    exact fun c hc => List.mem_cons_of_mem _ (List.mem_append_left _ hc)
  · rw [hsame]
    exact List.Subset.refl _

/-- Of the marks of an enclosure alone is something taken off: all other characters are still
there. -/
theorem mem_unwrapped {c : Char} {chars : List Char} (h : c ∈ chars) (hopen : c ≠ 'L')
    (hclose : c ≠ ';') : c ∈ unwrapped chars := by
  rcases unwrapped_eq chars with ⟨inner, rfl, hinner⟩ | ⟨-, hsame⟩
  · rw [hinner]
    simpa [hopen, hclose] using h
  · rwa [hsame]

/-- Brackets in front can be dropped without losing another character. -/
theorem mem_dropWhile_brackets {c : Char} {chars : List Char} (h : c ∈ chars) (hc : c ≠ '[') :
    c ∈ chars.dropWhile (· = '[') := by
  rw [← List.takeWhile_append_dropWhile (p := (· = '[')) (l := chars)] at h
  refine (List.mem_append.1 h).resolve_left fun hbracket => hc ?_
  simpa using List.mem_takeWhile_imp hbracket

/-- The name of the element of an array has a slash if the name of the array has one, as has the
name of a class that is in a package. -/
theorem slash_mem_element {type : TypeName} {element : String} (h : type.element? = some element)
    (hslash : '/' ∈ type.binary.toList) : '/' ∈ element.toList := by
  rw [element?] at h
  split at h
  · cases h
    rw [String.toList_ofList]
    exact mem_unwrapped (mem_dropWhile_brackets hslash (by decide)) (by decide) (by decide)
  · cases h

/-- No primitive type has a slash in its name, for that is a single letter. -/
theorem isPrimitiveLetter_of_slash {chars : List Char} (h : '/' ∈ chars) :
    isPrimitiveLetter chars = false := by
  match chars, h with
  | [c], h =>
    obtain rfl := List.mem_singleton.1 h
    rfl
  | _ :: _ :: _, _ => rfl

/-- A text with a slash gives a name with a slash. -/
theorem slash_mem_ofText {text : String} (h : '/' ∈ text.toList) :
    '/' ∈ (ofText text).binary.toList := by
  rw [ofText, String.toList_ofList]
  exact mem_unwrapped h (by decide) (by decide)

/-- And the type that is referred to in the end has one as well, after all enclosures and brackets
have been taken off. -/
theorem slash_mem_referent {type : TypeName} (h : '/' ∈ type.binary.toList) :
    '/' ∈ type.referent.binary.toList := by
  rw [referent]
  split
  · rename_i element helement
    exact slash_mem_ofText (slash_mem_element helement h)
  · exact h

/-- The type is an array, and one or two enclosures around its element have another array
inside. -/
def WrapsArray (type : TypeName) : Prop :=
  ∃ brackets inner, type.binary.toList = '[' :: (List.replicate brackets '[' ++ inner) ∧
    ((∃ rest, inner = 'L' :: '[' :: (rest ++ [';'])) ∨
      ∃ rest, inner = 'L' :: 'L' :: '[' :: (rest ++ [';', ';']))

/-- An array comes out of an enclosure exactly if it was put in one, or was one without it. -/
theorem head?_unwrapped_iff (chars : List Char) :
    (unwrapped chars).head? = some '[' ↔
      (∃ rest, chars = 'L' :: '[' :: (rest ++ [';'])) ∨ chars.head? = some '[' := by
  rcases unwrapped_eq chars with ⟨inner, rfl, hinner⟩ | ⟨hbare, hsame⟩
  · rw [hinner]
    constructor
    · intro h
      obtain ⟨rest, rfl⟩ := List.head?_eq_some_iff.1 h
      exact .inl ⟨rest, rfl⟩
    · rintro (⟨rest, hrest⟩ | h)
      · have hcons : inner ++ [';'] = ('[' :: rest) ++ [';'] := (List.cons.inj hrest).2
        rw [List.append_cancel_right hcons]
        rfl
      · cases h
  · rw [hsame]
    exact ⟨.inr, fun h => h.resolve_left fun ⟨rest, hrest⟩ => hbare ('[' :: rest) hrest⟩

/-- Of the element of an array two enclosures are taken off, one when the array is taken apart and
one when its element is taken for a text. So it may be an array again in two ways. -/
theorem head?_unwrapped_twice_iff {chars : List Char} (h : chars.head? ≠ some '[') :
    (unwrapped (unwrapped chars)).head? = some '[' ↔
      (∃ rest, chars = 'L' :: '[' :: (rest ++ [';'])) ∨
        ∃ rest, chars = 'L' :: 'L' :: '[' :: (rest ++ [';', ';']) := by
  rw [head?_unwrapped_iff, head?_unwrapped_iff, or_iff_left h, or_comm]
  refine or_congr_right ?_
  rcases unwrapped_eq chars with ⟨inner, rfl, hinner⟩ | ⟨hbare, hsame⟩
  · rw [hinner]
    constructor
    · rintro ⟨rest, rfl⟩
      exact ⟨rest, by simp⟩
    · rintro ⟨rest, hrest⟩
      have hcons : inner ++ [';'] = ('L' :: '[' :: (rest ++ [';'])) ++ [';'] := by
        simpa using hrest
      exact ⟨rest, List.append_cancel_right hcons⟩
  · rw [hsame]
    refine ⟨fun ⟨rest, hrest⟩ => absurd hrest (hbare ('[' :: rest)), fun ⟨rest, hrest⟩ => ?_⟩
    exact absurd hrest fun hrest => hbare ('L' :: '[' :: (rest ++ [';'])) (by simpa using hrest)

/-- Dropping the brackets of an array leaves what stood behind them. -/
theorem dropWhile_brackets {inner : List Char} (h : inner.head? ≠ some '[') (brackets : Nat) :
    (List.replicate brackets '[' ++ inner).dropWhile (· = '[') = inner := by
  induction brackets with
  | zero =>
    cases inner with
    | nil => rfl
    | cons c inner => exact List.dropWhile_cons_of_neg (by simpa using h)
  | succ brackets ih => exact (List.dropWhile_cons_of_pos (by rfl)).trans ih

/-- A name is its brackets in front of what is left without them. -/
theorem brackets_append_dropWhile (chars : List Char) :
    ∃ brackets, chars = List.replicate brackets '[' ++ chars.dropWhile (· = '[') := by
  have hbracket (c : Char) (hc : c ∈ chars.takeWhile (· = '[')) : c = '[' := by
    simpa using List.mem_takeWhile_imp hc
  refine ⟨(chars.takeWhile (· = '[')).length, ?_⟩
  rw [← List.eq_replicate_of_mem hbracket, List.takeWhile_append_dropWhile]

/-- **What an array refers to is an array again exactly if it wraps one.** All brackets in front are
dropped at once, so the bracket that is left stood in an enclosure. -/
theorem isArray_referent_iff (type : TypeName) :
    type.referent.isArray = true ↔ type.WrapsArray := by
  by_cases harray : type.isArray = true
  · obtain ⟨rest, hchars⟩ := List.head?_eq_some_iff.1 (of_decide_eq_true harray)
    have hreferent : type.referent.isArray = true ↔
        (unwrapped (unwrapped (type.binary.toList.dropWhile (· = '[')))).head? = some '[' := by
      rw [referent, element?, if_pos harray]
      simp [isArray, ofText]
    have hdrop : type.binary.toList.dropWhile (· = '[') = rest.dropWhile (· = '[') := by
      rw [hchars]
      exact List.dropWhile_cons_of_pos (by rfl)
    have hrest : (rest.dropWhile (· = '[')).head? ≠ some '[' := fun h => by
      have hnot := List.head?_dropWhile_not (· = '[') rest
      rw [h] at hnot
      exact absurd hnot (by decide)
    rw [hreferent, hdrop, head?_unwrapped_twice_iff hrest, WrapsArray, hchars]
    constructor
    · intro h
      obtain ⟨brackets, hbrackets⟩ := brackets_append_dropWhile rest
      exact ⟨brackets, _, congrArg _ hbrackets, h⟩
    · rintro ⟨brackets, inner, hinner, h⟩
      have hhead : inner.head? ≠ some '[' := by
        rcases h with ⟨_, rfl⟩ | ⟨_, rfl⟩ <;> simp
      rwa [(List.cons.inj hinner).2, dropWhile_brackets hhead]
  · have hbare := Bool.eq_false_iff.2 harray
    rw [referent_of_not_isArray hbare, hbare]
    refine iff_of_false Bool.false_ne_true ?_
    rintro ⟨brackets, inner, hchars, -⟩
    refine harray ?_
    rw [isArray, hchars]
    rfl

/-- A plain name is not the name of an array, since no bracket is in it. -/
theorem not_isArray_of_plain {name : List Char} (h : Signature.IsPlainName name) :
    isArray ⟨String.ofList name⟩ = false := by
  refine decide_eq_false fun harray => ?_
  rw [String.toList_ofList] at harray
  exact h.unmarked '[' (by decide) (List.mem_of_mem_head? harray)

/-- A plain name is the name of a class, as it is: no enclosure is taken off, and there is no
element to refer to. -/
theorem referent_ofText_of_plain {name : List Char} (h : Signature.IsPlainName name) :
    (ofText (String.ofList name)).referent = ⟨String.ofList name⟩ := by
  have hbare : unwrapped name = name := by
    rcases unwrapped_eq name with ⟨inner, rfl, -⟩ | ⟨-, hsame⟩
    · exact absurd (by simp) (h.unmarked ';' (by decide))
    · exact hsame
  have htype : ofText (String.ofList name) = ⟨String.ofList name⟩ := by
    rw [ofText, String.toList_ofList, hbare]
  rw [htype]
  exact referent_of_not_isArray (not_isArray_of_plain h)

/-- Without a semicolon there is no enclosure, and nothing can be wrapped in one. -/
theorem WrapsArray.semicolon {type : TypeName} (h : type.WrapsArray) :
    ';' ∈ type.binary.toList := by
  obtain ⟨brackets, inner, hchars, ⟨rest, rfl⟩ | ⟨rest, rfl⟩⟩ := h <;> rw [hchars] <;> simp

/-- A class that a text names is no array, since its name has no semicolon and thus cannot wrap
one. -/
theorem isArray_referent_of_mem_names {text name : String}
    (h : name ∈ (Signature.scan text).names) : (ofText name).referent.isArray = false := by
  refine eq_false_of_ne_true fun harray => ?_
  have hsemicolon := ((isArray_referent_iff _).1 harray).semicolon
  rw [ofText, String.toList_ofList] at hsemicolon
  exact Signature.not_mem_of_mem_names h (unwrapped_subset _ hsemicolon)

end TypeName

namespace Package

/-- The package of a type is primitive if the name of the type is a single letter, after its
brackets and one enclosure if it is an array. -/
theorem primitive_ofType (type : TypeName) : (ofType type).primitive =
    TypeName.isPrimitiveLetter (type.element?.getD type.binary).toList := by
  rw [ofType]
  split
  · rename_i hletter
    exact hletter.symm
  · rename_i hletter
    exact (eq_false_of_ne_true hletter).symm

/-- The package of a type that is no array is primitive if the type is. So what can be referred to
at all is in an ordinary package, arrays apart. -/
theorem primitive_ofType_of_not_isArray {type : TypeName} (h : type.isArray = false) :
    (ofType type).primitive = type.isPrimitive := by
  have hbare : type.element? = none := by
    rw [TypeName.element?, h]
    rfl
  rw [primitive_ofType, hbare]
  rfl

/-- A name with a slash is in an ordinary package, whether it is the name of an array or of a
class. -/
theorem ordinary_of_slash {type : TypeName} (h : '/' ∈ type.binary.toList) :
    (ofType type).primitive = false := by
  have hslash : '/' ∈ (type.element?.getD type.binary).toList := by
    cases helement : type.element? with
    | none => exact h
    | some element => exact TypeName.slash_mem_element helement h
  rw [primitive_ofType]
  exact TypeName.isPrimitiveLetter_of_slash hslash

end Package

/-- **A plain descriptor is in the package of the class that it names**, be it read for names or
taken as a whole. This is why annotations whose types are plain expose no package that is not
imported. -/
theorem Package.ofType_ofText_of_class {text : String} {brackets : Nat} {name : List Char}
    (h : Signature.IsPlainName name)
    (htext : text.toList = List.replicate brackets '[' ++ 'L' :: (name ++ [';'])) :
    ofType (.ofText text) = ofType ⟨String.ofList name⟩ := by
  have hinner : TypeName.unwrapped ('L' :: (name ++ [';'])) = name := by
    rcases TypeName.unwrapped_eq ('L' :: (name ++ [';'])) with ⟨inner, hsame, hinner⟩ | ⟨hnone, -⟩
    · rw [hinner]
      exact (List.append_cancel_right (List.cons.inj hsame).2).symm
    · exact absurd rfl (hnone name)
  have hbare : (TypeName.element? ⟨String.ofList name⟩).getD (String.ofList name) =
      String.ofList name := by
    rw [TypeName.element?, TypeName.not_isArray_of_plain h]
    rfl
  have helement : (TypeName.ofText text).element?.getD (TypeName.ofText text).binary =
      String.ofList name := by
    cases brackets with
    | zero =>
      have htype : TypeName.ofText text = ⟨String.ofList name⟩ := by
        rw [TypeName.ofText, htext]
        exact congrArg (TypeName.mk ∘ String.ofList) hinner
      rw [htype, hbare]
    | succ brackets =>
      -- an array is not in an enclosure, but its element is
      have htype : (TypeName.ofText text).binary.toList =
          List.replicate (brackets + 1) '[' ++ 'L' :: (name ++ [';']) := by
        rw [TypeName.ofText, htext]
        exact String.toList_ofList
      have harray : (TypeName.ofText text).isArray = true := by
        rw [TypeName.isArray, htype]
        rfl
      rw [TypeName.element?, if_pos harray, htype, TypeName.dropWhile_brackets (by simp),
        hinner]
      rfl
  rw [ofType, ofType, helement, hbare]

end ClassFile
