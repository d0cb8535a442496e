import ClassFile.Proofs.Signatures
import ClassFile.Proofs.Splitting
import ClassFile.Signature.Descriptor

/-!
# Descriptors are split and scanned alike

The text of a method descriptor is read twice: its arguments are split off one by one, and it is
scanned for the names of classes. On a descriptor that is written from a tree, both find what the
tree has (`ClassFile.Signature.MethodDescriptor.readings_agree`).

The splitting knows where one argument ends: what it takes off is an argument
(`ClassFile.Signature.IsArgument`), and any list of arguments between the parentheses is split in
this way and no other (`ClassFile.Signature.arguments_eq_ok_iff`). The invariant is that what was
read of the current argument can be completed to one, whatever follows
(`ClassFile.Signature.Completable`).
-/

namespace ClassFile.Signature

/-! ### Arguments -/

/-- The letters that the splitting knows are those of the primitive types, without `void`. -/
theorem isPrimitiveArgument_iff {c : Char} :
    isPrimitiveArgument c = true ↔ ∃ type : Primitive, type ≠ .void ∧ type.letter = c := by
  constructor
  · intro h
    have hmem : c ∈ ['B', 'C', 'D', 'F', 'I', 'J', 'S', 'Z'] := List.contains_iff_mem.1 h
    simp only [List.mem_cons, List.not_mem_nil, or_false] at hmem
    rcases hmem with rfl | rfl | rfl | rfl | rfl | rfl | rfl | rfl
    · exact ⟨.byte, nofun, rfl⟩
    · exact ⟨.char, nofun, rfl⟩
    · exact ⟨.double, nofun, rfl⟩
    · exact ⟨.float, nofun, rfl⟩
    · exact ⟨.int, nofun, rfl⟩
    · exact ⟨.long, nofun, rfl⟩
    · exact ⟨.short, nofun, rfl⟩
    · exact ⟨.boolean, nofun, rfl⟩
  · rintro ⟨type, hvoid, rfl⟩
    cases type with
    | void => exact absurd rfl hvoid
    | _ => rfl

/-- What the splitting takes for an argument. It looks at a name for the semicolon alone. -/
inductive IsArgument : List Char → Prop
  | primitive {type : Primitive} : type ≠ .void → IsArgument [type.letter]
  | named {name : List Char} : ';' ∉ name → IsArgument ('L' :: (name ++ [';']))
  | array {part : List Char} : IsArgument part → IsArgument ('[' :: part)

theorem isArgument_iff {part : List Char} : IsArgument part ↔
    ∃ brackets element, part = List.replicate brackets '[' ++ element ∧
      ((∃ type : Primitive, type ≠ .void ∧ element = [type.letter]) ∨
        ∃ name, ';' ∉ name ∧ element = 'L' :: (name ++ [';'])) := by
  constructor
  · intro h
    induction h with
    | primitive hvoid => exact ⟨0, _, rfl, .inl ⟨_, hvoid, rfl⟩⟩
    | named hname => exact ⟨0, _, rfl, .inr ⟨_, hname, rfl⟩⟩
    | array _ ih =>
      obtain ⟨brackets, element, rfl, helement⟩ := ih
      exact ⟨brackets + 1, element, rfl, helement⟩
  · rintro ⟨brackets, element, rfl, helement⟩
    induction brackets with
    | zero =>
      rcases helement with ⟨type, hvoid, rfl⟩ | ⟨name, hname, rfl⟩
      · exact .primitive hvoid
      · exact .named hname
    | succ brackets ih => exact .array ih

/-- An argument is taken off, with what was read of it before. -/
theorem IsArgument.splitArguments {part : List Char} (h : IsArgument part)
    (reversed rest : List Char) : splitArguments reversed false (part ++ rest) = (do
      return String.ofList (reversed.reverse ++ part) :: (← splitArguments [] false rest)) := by
  induction h generalizing reversed with
  | @primitive type hvoid =>
    have hmark : type.letter ≠ ')' ∧ type.letter ≠ '[' ∧ type.letter ≠ 'L' := by
      cases type <;> decide
    obtain ⟨hclose, hbracket, hclass⟩ := hmark
    rw [List.singleton_append, Signature.splitArguments, if_neg fun h => hclose h.1,
      if_neg hbracket, if_neg hclass, if_pos (isPrimitiveArgument_iff.2 ⟨type, hvoid, rfl⟩),
      List.reverse_cons]
  | @named name hname =>
    rw [List.cons_append, List.append_assoc, Signature.splitArguments, if_neg (by simp),
      if_neg (by decide), if_pos rfl, List.singleton_append, splitArguments_name _ hname,
      List.reverse_cons]
    simp only [List.append_assoc, List.cons_append, List.nil_append]
  | array _ ih =>
    rw [List.cons_append, Signature.splitArguments, if_neg (by simp), if_pos rfl, ih,
      List.reverse_cons]
    simp only [List.append_assoc, List.cons_append, List.nil_append]

/-- The characters are these arguments, one after the other, and a parenthesis behind them. -/
structure Lists (chars : List Char) (parts : List String) : Prop where
  arguments : ∀ part ∈ parts, IsArgument part.toList
  closed : ∃ tail, chars = parts.flatMap String.toList ++ ')' :: tail

theorem lists_nil (tail : List Char) : Lists (')' :: tail) [] := ⟨nofun, tail, rfl⟩

theorem Lists.cons {part rest : List Char} {parts : List String} (hpart : IsArgument part)
    (h : Lists rest parts) : Lists (part ++ rest) (String.ofList part :: parts) where
  arguments := List.forall_mem_cons.2 ⟨by rwa [String.toList_ofList], h.arguments⟩
  closed := by
    obtain ⟨tail, rfl⟩ := h.closed
    exact ⟨tail, by rw [List.flatMap_cons, String.toList_ofList, List.append_assoc]⟩

/-- Arguments that follow each other are taken off one by one. -/
theorem Lists.splitArguments {chars : List Char} {parts : List String} (h : Lists chars parts) :
    splitArguments [] false chars = .ok parts := by
  obtain ⟨hargs, tail, rfl⟩ := h
  induction parts with
  | nil => rfl
  | cons part parts ih =>
    obtain ⟨hpart, hparts⟩ := List.forall_mem_cons.1 hargs
    rw [List.flatMap_cons, List.append_assoc, hpart.splitArguments, ih hparts, List.reverse_nil,
      List.nil_append, String.ofList_toList]
    rfl

/-- What was read of an argument is the beginning of one, whatever follows. -/
def Completable (reversed : List Char) : Bool → Prop
  | false => ∀ part, IsArgument part → IsArgument (reversed.reverse ++ part)
  | true => ∀ name, ';' ∉ name → IsArgument (reversed.reverse ++ (name ++ [';']))

theorem completable_nil : Completable [] false := fun _ h => h

/-- One argument is taken off before the others. -/
theorem exists_of_cons_ok {part : String} {others : Except MethodFault (List String)}
    {parts : List String} (h : (do return part :: (← others)) = .ok parts) :
    ∃ more, others = .ok more ∧ parts = part :: more := by
  cases others with
  | error why => cases h
  | ok more =>
    cases h
    exact ⟨more, rfl, rfl⟩

/-- What is taken off are arguments, and they follow each other. -/
theorem lists_of_splitArguments {reversed : List Char} {inName : Bool} {chars : List Char}
    {parts : List String} (h : splitArguments reversed inName chars = .ok parts)
    (hopen : Completable reversed inName) : Lists (reversed.reverse ++ chars) parts := by
  have hpush (c : Char) (reversed rest : List Char) :
      (c :: reversed).reverse ++ rest = reversed.reverse ++ c :: rest := by simp
  fun_induction splitArguments reversed inName chars generalizing parts with
  | case1 | case2 | case9 => cases h
  | case3 reversed rest ih =>
    -- a name ends
    obtain ⟨more, hmore, rfl⟩ := exists_of_cons_ok h
    rw [← hpush]
    exact .cons (by simpa using hopen [] List.not_mem_nil) (ih hmore completable_nil)
  | case4 reversed c rest hc ih =>
    -- a name goes on
    rw [← hpush]
    refine ih h fun name hname => ?_
    rw [hpush]
    exact hopen (c :: name) (List.not_mem_cons_of_ne_of_not_mem (Ne.symm hc) hname)
  | case5 reversed c rest hclose =>
    obtain ⟨rfl, rfl⟩ := hclose
    cases h
    exact lists_nil rest
  | case6 reversed rest _ ih =>
    rw [← hpush]
    refine ih h fun part hpart => ?_
    rw [hpush]
    exact hopen _ (.array hpart)
  | case7 reversed rest _ _ ih =>
    -- a name begins
    rw [← hpush]
    refine ih h fun name hname => ?_
    rw [hpush]
    exact hopen _ (.named hname)
  | case8 reversed c rest _ _ _ hprimitive ih =>
    obtain ⟨type, hvoid, rfl⟩ := isPrimitiveArgument_iff.1 hprimitive
    obtain ⟨more, hmore, rfl⟩ := exists_of_cons_ok h
    rw [← hpush]
    refine .cons ?_ (ih hmore completable_nil)
    rw [List.reverse_cons]
    exact hopen _ (.primitive hvoid)

/-- **A text is split into arguments exactly if they follow each other between its parentheses.** -/
theorem arguments_eq_ok_iff {text : String} {parts : List String} :
    arguments text = .ok parts ↔ ∃ chars, text.toList = '(' :: chars ∧ Lists chars parts := by
  rw [arguments]
  split
  · rename_i chars htext
    constructor
    · intro h
      cases hsplit : splitArguments [] false chars with
      | error why =>
        rw [hsplit] at h
        cases h
      | ok parts' =>
        rw [hsplit] at h
        cases h
        exact ⟨chars, htext, lists_of_splitArguments hsplit completable_nil⟩
    · rintro ⟨chars', hchars, hlists⟩
      rw [htext] at hchars
      rw [(List.cons.inj hchars).2, hlists.splitArguments]
      rfl
  · rename_i hopen
    refine iff_of_false nofun ?_
    rintro ⟨chars, hchars, -⟩
    exact hopen chars hchars

/-! ### Descriptors -/

theorem FieldType.isArgument (type : FieldType) : IsArgument type.chars := by
  induction type with
  | primitive type ne_void => exact .primitive ne_void
  | array element ih => exact .array ih
  | object name => exact .named fun hmem => (name.unmarked ';' hmem).1 rfl

namespace MethodDescriptor

variable (descriptor : MethodDescriptor)

theorem arguments_text :
    arguments descriptor.text = .ok (descriptor.parameters.map FieldType.text) := by
  refine arguments_eq_ok_iff.2 ⟨_, String.toList_ofList, ?_, descriptor.result.chars, ?_⟩
  · rintro part hpart
    obtain ⟨type, -, rfl⟩ := List.mem_map.1 hpart
    rw [FieldType.text, String.toList_ofList]
    exact type.isArgument
  · simp [FieldType.text, List.flatMap_map]

/-- The scan finds the classes of a descriptor. It has no type arguments, which could nest too
deep. -/
theorem scan_eq : scan descriptor.text = ⟨descriptor.names, none⟩ := by
  have hgoes := Scanner.goes_shape descriptor.shape
  rw [chars_shape, names_shape, depth_shape] at hgoes
  have htext : descriptor.text.toList = descriptor.chars ++ [] := by simp [text]
  rw [scan, htext, hgoes.passes (Nat.zero_le _)]
  simp [Scanner.run, Scanner.atEnd, Scanner.telling, Scanner.completed, Scanner.afterType,
    Scanner.initial]

/-- **The two readings of a method descriptor agree.** Of every descriptor, the splitting gives the
parameters, and the scan gives the classes of the parameters and of the result, in order, and is
content with the text. And a text is split into parts exactly if they follow each other between its
parentheses and each of them is an argument: brackets, and then the letter of a primitive type or a
name between `L` and the first semicolon. -/
theorem readings_agree :
    (∀ (descriptor : MethodDescriptor) (context : Context) (access : Access),
      arguments descriptor.text = .ok (descriptor.parameters.map FieldType.text) ∧
      scan descriptor.text =
        ⟨descriptor.parameters.flatMap FieldType.names ++ descriptor.result.names, none⟩ ∧
      Decode.referText context descriptor.text access =
        descriptor.names.forM (Decode.mention context access)) ∧
    ∀ (text : String) (parts : List String), arguments text = .ok parts ↔
      (∃ tail, text.toList = '(' :: (parts.flatMap String.toList ++ ')' :: tail)) ∧
      ∀ part ∈ parts, ∃ brackets element,
        part.toList = List.replicate brackets '[' ++ element ∧
          ((∃ type : Primitive, type ≠ .void ∧ element = [type.letter]) ∨
            ∃ name, ';' ∉ name ∧ element = 'L' :: (name ++ [';'])) := by
  refine ⟨fun descriptor context access => ⟨descriptor.arguments_text, descriptor.scan_eq, ?_⟩,
    fun text parts => ?_⟩
  · rw [Decode.referText, descriptor.scan_eq]
    exact bind_pure_unit
  · rw [arguments_eq_ok_iff]
    constructor
    · rintro ⟨chars, htext, hargs, tail, rfl⟩
      exact ⟨⟨tail, htext⟩, fun part hpart => isArgument_iff.1 (hargs part hpart)⟩
    · rintro ⟨⟨tail, htext⟩, hargs⟩
      exact ⟨_, htext, fun part hpart => isArgument_iff.2 (hargs part hpart), tail, rfl⟩

/-- A name may hold what ends the list of parameters elsewhere. -/
example :
    let name (text : String) (h : text.toList ≠ [] ∧
      ∀ c ∈ text.toList, (c ≠ ';' ∧ c ≠ '<' ∧ c ≠ '.') ∧ c ≠ '[' ∧ c ≠ '>') : ClassName :=
      ⟨⟨text.toList, h.1, fun c hc => (h.2 c hc).1⟩, fun c hc => (h.2 c hc).2⟩
    let descriptor : MethodDescriptor := ⟨[.primitive .int (by decide),
      .array (.object (name "p/(A)I" (by simp)))], .value (.object (name "B" (by simp)))⟩
    descriptor.text = "(I[Lp/(A)I;)LB;" ∧ descriptor.names = ["p/(A)I", "B"] := by
  decide +kernel

end MethodDescriptor

end ClassFile.Signature
