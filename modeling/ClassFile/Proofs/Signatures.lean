import ClassFile.Decoder.References
import ClassFile.Signature.Grammar

/-!
# Scanning what was written

A signature that is written from a tree (`ClassFile.Signature.Shape`) is read back: the scan finds
the classes of the tree, each where its name ends, and nothing is wrong with the text unless its
type arguments nest too deep (`ClassFile.Signature.Shape.scan_text`).

The scanner goes over a part of a text in the same way wherever the part stands, as long as there
is room on its stack for the arguments in it: `Scanner.Goes` says where it comes out and how much
room it takes. For two parts in a row the rooms are compared, not added
(`Scanner.Goes.append`), and a pair of angle brackets takes one more than what is in them
(`Scanner.Goes.enter`). The rest is an induction over the tree.
-/

namespace ClassFile.Signature

namespace Scanner

variable {s next last : Scanner}

/-- The scanner after it has found some more classes. -/
def telling (s : Scanner) (names : List String) : Scanner :=
  { s with found := names.reverse ++ s.found }

@[simp] theorem telling_telling (s : Scanner) (names more : List String) :
    (s.telling names).telling more = s.telling (names ++ more) := by
  simp [telling]

/-- A part of a text in which arguments nest to a depth takes the scanner from one state to
another, if there is room for them on its stack, and does not pass otherwise. -/
structure Goes (s : Scanner) (part : List Char) (depth : Nat) (next : Scanner) : Prop where
  nesting : next.nesting = s.nesting
  passes : s.nesting + depth ≤ nestingLimit → ∀ rest, s.run (part ++ rest) = next.run rest
  fails : s.nesting ≤ nestingLimit → nestingLimit < s.nesting + depth →
    ∀ rest, (s.run (part ++ rest)).2 = some .tooDeep

namespace Goes

variable {part more : List Char} {depth : Nat}

/-- Nothing is read, and the scanner stays where it is. -/
theorem nil (s : Scanner) : s.Goes [] 0 s where
  nesting := rfl
  passes _ _ := rfl
  fails hroom hdeep := absurd hroom (Nat.not_le.mpr hdeep)

/-- Two parts are read in a row. They do not need room on the stack at the same time, so the greater
depth counts. -/
theorem append {more : List Char} {furtherDepth : Nat} (h : s.Goes part depth next)
    (hmore : next.Goes more furtherDepth last) :
    s.Goes (part ++ more) (max depth furtherDepth) last where
  nesting := hmore.nesting.trans h.nesting
  passes hroom rest := by
    have hnesting := h.nesting
    rw [List.append_assoc, h.passes (by omega), hmore.passes (by omega)]
  fails hroom hdeep rest := by
    have hnesting := h.nesting
    rw [List.append_assoc]
    by_cases hfirst : s.nesting + depth ≤ nestingLimit
    · rw [h.passes hfirst]
      exact hmore.fails (by omega) (by omega) rest
    · exact h.fails hroom (by omega) _

/-- One character is read that opens and closes nothing. It needs no room on the stack. -/
theorem single {c : Char} (hstep : s.step c = .ok next) (hnesting : next.nesting = s.nesting) :
    s.Goes [c] 0 next where
  nesting := hnesting
  passes _ rest := by rw [List.singleton_append, run, hstep]
  fails hroom hdeep := absurd hroom (Nat.not_le.mpr hdeep)

/-- One such character is read before the rest, which needs as much room as it needs alone. -/
theorem cons {c : Char} (hstep : s.step c = .ok next) (hnesting : next.nesting = s.nesting)
    (h : next.Goes part depth last) : s.Goes (c :: part) depth last := by
  simpa using (single hstep hnesting).append h

/-- Something is read between angle brackets, which takes one place more on the stack than what is
between them. If there is no place left, the text nests too deep. -/
theorem enter {frame : Frame} (hopens : s.step '<' = s.enter frame)
    (h : ({ s with stack := frame :: s.stack, mode := .item } : Scanner).Goes part depth next)
    (hcloses : next.step '>' = .ok last) (hlast : last.nesting = s.nesting) :
    s.Goes ('<' :: (part ++ ['>'])) (depth + 1) last where
  nesting := hlast
  passes hroom rest := by
    have hopen : s.step '<' = .ok { s with stack := frame :: s.stack, mode := .item } := by
      rw [hopens, Scanner.enter, if_neg (by omega)]
    have hinside : ({ s with stack := frame :: s.stack, mode := .item } : Scanner).nesting + depth ≤
        nestingLimit := by
      simp only [Scanner.nesting, List.length_cons] at hroom ⊢
      omega
    rw [List.cons_append, List.append_assoc, run, hopen]
    simp only
    rw [h.passes hinside, List.singleton_append, run, hcloses]
  fails hroom hdeep rest := by
    by_cases hfull : s.nesting = nestingLimit
    · rw [List.cons_append, run, hopens, Scanner.enter, if_pos hfull]
    · have hopen : s.step '<' = .ok { s with stack := frame :: s.stack, mode := .item } := by
        rw [hopens, Scanner.enter, if_neg hfull]
      have hinside : ({ s with stack := frame :: s.stack, mode := .item } : Scanner).nesting =
          s.nesting + 1 := rfl
      rw [List.cons_append, List.append_assoc, run, hopen]
      exact h.fails (by omega) (by omega) _

end Goes

/-! ### Names -/

/-- The rest of a name is read, up to the mark that ends it. What was read of the name stands in
reverse. -/
theorem goes_name {name : List Char} (h : ∀ c ∈ name, c ≠ ';' ∧ c ≠ '<' ∧ c ≠ '.')
    (s : Scanner) (reversed : List Char) :
    ({ s with mode := .name reversed } : Scanner).Goes name 0
      { s with mode := .name (name.reverse ++ reversed) } := by
  induction name generalizing reversed with
  | nil => exact Goes.nil _
  | cons c name ih =>
    obtain ⟨hsemicolon, hopens, hdot⟩ := h c List.mem_cons_self
    have hstep : ({ s with mode := .name reversed } : Scanner).step c =
        .ok { s with mode := .name (c :: reversed) } := by
      simp [step, hsemicolon, hopens, hdot]
    have hrest := ih (fun c hc => h c (List.mem_cons_of_mem _ hc)) (c :: reversed)
    rw [List.reverse_cons, List.append_assoc]
    exact Goes.cons hstep rfl hrest

/-- The name of a type variable is read with its semicolon. It is not the name of a class, so
nothing is found. -/
theorem goes_variable {name : List Char} (h : ∀ c ∈ name, c ≠ ';' ∧ c ≠ '<' ∧ c ≠ '.')
    (s : Scanner) :
    ({ s with mode := .variable } : Scanner).Goes (name ++ [';']) 0 s.completed := by
  induction name with
  | nil => exact Goes.single rfl rfl
  | cons c name ih =>
    have hstep : ({ s with mode := .variable } : Scanner).step c =
        .ok { s with mode := .variable } := by
      simp [step, (h c List.mem_cons_self).1]
    exact Goes.cons hstep rfl (ih fun c hc => h c (List.mem_cons_of_mem _ hc))

/-! ### Types -/

/-- A type may begin. -/
def Awaits (s : Scanner) : Prop :=
  ∀ c ∈ "BCDFIJSZV+-*TL[".toList, s.step c = s.beginType c

theorem awaits_of_item (hmode : s.mode = .item) : s.Awaits := by
  have hcloses : ∀ c ∈ "BCDFIJSZV+-*TL[".toList, c ≠ '>' ∧ c ≠ ')' := by simp
  intro c hc
  obtain ⟨hangle, hround⟩ := hcloses c hc
  rw [step, hmode]
  simp only [item]
  split <;> simp only [if_neg hangle, if_neg hround]

theorem awaits_of_type (s : Scanner) : ({ s with mode := .type } : Scanner).Awaits :=
  fun _ _ => rfl

theorem awaits_of_start (hmode : s.mode = .start) : s.Awaits := by
  have hopens : ∀ c ∈ "BCDFIJSZV+-*TL[".toList, c ≠ '<' ∧ c ≠ '(' := by simp
  intro c hc
  obtain ⟨hangle, hround⟩ := hopens c hc
  have hitem := awaits_of_item (s := { s with mode := .item }) rfl c hc
  rw [step, hmode]
  simp only [opening, if_neg hangle, if_neg hround]
  exact hitem

/-- A single letter is a type by itself: a primitive one, or a wildcard in a list of type
arguments. -/
theorem Awaits.step_simple {c : Char} (h : s.Awaits) (hc : c ∈ "BCDFIJSZV+-*".toList) :
    s.step c = .ok s.completed := by
  have hletter : ∀ c ∈ "BCDFIJSZV+-*".toList,
      c ∈ "BCDFIJSZV+-*TL[".toList ∧ c ≠ '[' ∧ c ≠ '<' ∧ c ≠ 'T' ∧ c ≠ 'L' ∧ isSimple c = true := by
    simp [isSimple]
  obtain ⟨hmem, hbracket, hangle, hvariable, hclass, hsimple⟩ := hletter c hc
  rw [h c hmem, beginType, if_neg hbracket, if_neg hangle, if_neg hvariable,
    if_neg hclass, if_pos hsimple]

/-- A list of types goes on: the scanner stands between two of them, and comes back when a type
is complete. -/
structure Listing (s : Scanner) : Prop where
  mode : s.mode = .item
  completed : s.completed = s

theorem listing_nested (s : Scanner) (frame : Frame) :
    ({ s with stack := frame :: s.stack, mode := .item } : Scanner).Listing := ⟨rfl, rfl⟩

/-- To have found some names does not change where the scanner is in a list. -/
theorem Listing.telling (h : s.Listing) (names : List String) : (s.telling names).Listing :=
  ⟨h.mode, congrArg (Scanner.telling · names) h.completed⟩

theorem Listing.awaits (h : s.Listing) : s.Awaits := awaits_of_item h.mode

/-- The type arguments of a class are read, if what is in their brackets is. Then the name goes on,
for an inner class may follow. -/
theorem goes_bracketed {arguments : List Argument} (s : Scanner) (reversed : List Char)
    (h : ∀ s : Scanner, s.Listing → s.Goes (argumentChars arguments) (argumentDepth arguments)
      (s.telling (argumentNames arguments))) :
    ({ s with mode := .name reversed } : Scanner).Goes
      (bracketed arguments (argumentChars arguments)) (nested arguments (argumentDepth arguments))
      ({ s with mode := .name reversed }.telling (argumentNames arguments)) := by
  cases arguments with
  | nil => exact Goes.nil _
  | cons argument rest =>
    exact Goes.enter rfl (h _ (listing_nested s (.named reversed))) rfl rfl

mutual

/-- A type is read, and its classes are found, wherever a type may stand. It is proved along with
the following theorems, by induction over the tree. -/
theorem goes_type (type : TypeTree) (s : Scanner) (h : s.Awaits) :
    s.Goes type.chars type.depth (s.completed.telling type.names) := by
  match type with
  | .primitive primitive => exact Goes.single (h.step_simple (by cases primitive <;> decide)) rfl
  | .array element =>
    exact Goes.cons (h '[' (by decide)) rfl
      (goes_type element _ (awaits_of_type s))
  | .variable name =>
    exact Goes.cons (h 'T' (by decide)) rfl
      (goes_variable name.unmarked s)
  | .object named =>
    refine Goes.cons (h 'L' (by decide)) rfl ?_
    have hend :
        ({ s with mode := .name named.name.reverse }.telling named.argumentsNames).step ';' =
          .ok (s.completed.telling (named.argumentsNames ++ [String.ofList named.name])) := by
      simp [step, telling, named.name_ne_nil, completed, afterType]
    simpa [TypeTree.depth, TypeTree.names] using (goes_class named s).append (Goes.single hend rfl)

/-- A class is read up to its semicolon. Its own name is found where the name ends, which is behind
the names in its type arguments. -/
theorem goes_class (named : ClassTree) (s : Scanner) :
    ({ s with mode := .name [] } : Scanner).Goes named.chars named.depth
      ({ s with mode := .name named.name.reverse }.telling named.argumentsNames) := by
  match named with
  | .outermost name arguments =>
    have hname := goes_name name.unmarked s []
    rw [List.append_nil] at hname
    simpa [ClassTree.depth, ClassTree.chars, ClassTree.name, ClassTree.argumentsNames] using
      hname.append (goes_bracketed s _ (goes_arguments arguments))
  | .inner outer name arguments =>
    have hdot :
        ({ s with mode := .name outer.name.reverse }.telling outer.argumentsNames).step '.' =
          .ok ({ s with mode := .name ('$' :: outer.name.reverse) }.telling
            outer.argumentsNames) := rfl
    have hname := goes_name name.unmarked (s.telling outer.argumentsNames)
      ('$' :: outer.name.reverse)
    have hrest := (Goes.cons hdot rfl hname).append
      (goes_bracketed (s.telling outer.argumentsNames) _ (goes_arguments arguments))
    simpa [ClassTree.depth, ClassTree.chars, ClassTree.name, ClassTree.argumentsNames,
      telling] using (goes_class outer s).append hrest

/-- A type argument is read, with its wildcard if it has one. -/
theorem goes_argument (argument : Argument) (s : Scanner) (h : s.Listing) :
    s.Goes argument.chars argument.depth (s.telling argument.names) := by
  have hmark (c : Char) (hc : c ∈ "BCDFIJSZV+-*".toList) : s.step c = .ok s :=
    (h.awaits.step_simple hc).trans (by rw [h.completed])
  match argument with
  | .any => exact Goes.single (hmark '*' (by decide)) rfl
  | .type variance type =>
    have htype := h.completed ▸ goes_type type s h.awaits
    cases variance with
    | exactly => exact htype
    | covariant => exact Goes.cons (hmark '+' (by decide)) rfl htype
    | contravariant => exact Goes.cons (hmark '-' (by decide)) rfl htype

/-- Type arguments are read one after the other, up to the bracket that closes the list. -/
theorem goes_arguments (arguments : List Argument) (s : Scanner) (h : s.Listing) :
    s.Goes (argumentChars arguments) (argumentDepth arguments)
      (s.telling (argumentNames arguments)) := by
  match arguments with
  | [] => exact Goes.nil s
  | argument :: rest =>
    rw [argumentNames, ← telling_telling]
    exact (goes_argument argument s h).append (goes_arguments rest _ (h.telling _))

end

/-- Types are read one after the other, as those of the parameters of a method. The deepest one says
how much room they need. -/
theorem goes_types (types : List TypeTree) (s : Scanner) (h : s.Listing) :
    s.Goes (types.flatMap TypeTree.chars) (deepest types)
      (s.telling (types.flatMap TypeTree.names)) := by
  induction types generalizing s with
  | nil => exact Goes.nil s
  | cons type types ih =>
    rw [List.flatMap_cons, List.flatMap_cons, ← telling_telling]
    have htype := goes_type type s h.awaits
    rw [h.completed] at htype
    exact htype.append (ih _ (h.telling _))

/-- A whole shape is read from the beginning: the type of a field, the parameters and the result of
a method, or the supertypes of a class. -/
theorem goes_shape (shape : Shape) :
    initial.Goes shape.chars shape.depth (initial.completed.telling shape.names) := by
  cases shape with
  | types first rest =>
    have hfirst := goes_type first initial (awaits_of_start rfl)
    have hrest := goes_types rest (initial.completed.telling first.names)
      (Listing.telling ⟨rfl, rfl⟩ _)
    rw [telling_telling] at hrest
    exact hfirst.append hrest
  | method parameters result =>
    let inside : Scanner := { initial with ground := .arguments, mode := .item }
    let behind : Scanner := initial.completed.telling (parameters.flatMap TypeTree.names)
    have hparameters : inside.Goes _ _ _ := goes_types parameters _ ⟨rfl, rfl⟩
    have hresult := goes_type result behind (awaits_of_item rfl)
    have hclose : (inside.telling (parameters.flatMap TypeTree.names)).step ')' = .ok behind := rfl
    have hopen : initial.step '(' = .ok inside := rfl
    have hall := Goes.cons hopen rfl (hparameters.append (Goes.cons hclose rfl hresult))
    rwa [show behind.completed = behind from rfl, telling_telling] at hall

end Scanner

/-- **What was written is read back**: the classes that a shape names are found, in order, and are
mentioned with the access that is given. If its type arguments nest deeper than the limit, the text
is refused for that. -/
theorem Shape.scan_text (shape : Shape) (context : Context) (access : Access) :
    if shape.depth ≤ nestingLimit then
      scan shape.text = ⟨shape.names, none⟩ ∧ Decode.referText context shape.text access =
        shape.names.forM (Decode.mention context access)
    else
      ∃ (found : List String) (fault : Fault), scan shape.text = ⟨found, some fault⟩ ∧
        fault = .descriptor shape.text .tooDeep ∧ fault.kind = .limit ∧
        Decode.referText context shape.text access =
          (do found.forM (Decode.mention context access); throw fault) := by
  have hgoes := Scanner.goes_shape shape
  have hroom : Scanner.initial.nesting = 0 := rfl
  have htext : shape.text.toList = shape.chars ++ [] := by simp [Shape.text]
  split
  case isTrue hdepth =>
    have hscan : scan shape.text = ⟨shape.names, none⟩ := by
      rw [scan, htext, hgoes.passes (by omega)]
      simp [Scanner.run, Scanner.atEnd, Scanner.telling, Scanner.completed, Scanner.afterType,
        Scanner.initial]
    refine ⟨hscan, ?_⟩
    rw [Decode.referText, hscan]
    exact bind_pure_unit
  case isFalse hdepth =>
    have hfails := hgoes.fails (by omega) (by omega) []
    have hscan : (scan shape.text).fault = some (.descriptor shape.text .tooDeep) := by
      rw [← htext] at hfails
      exact congrArg (Option.map (Fault.descriptor shape.text)) hfails
    refine ⟨(scan shape.text).names, _, ?_, rfl, rfl, ?_⟩
    · rw [← hscan]
    · rw [Decode.referText, hscan]

/-- A class inside of one with arguments, after an argument that names a class itself. -/
example :
    let name (text : String) (h : text.toList ≠ [] ∧
      ∀ c ∈ text.toList, c ≠ ';' ∧ c ≠ '<' ∧ c ≠ '.') : Identifier := ⟨text.toList, h.1, h.2⟩
    let shape : Shape := .method [.array (.object (.inner
      (.outermost (name "p/Map" (by simp)) [.any, .type .covariant (.object
        (.outermost (name "p/Key" (by simp)) []))]) (name "Entry" (by simp)) []))]
      (.primitive .void)
    shape.text = "([Lp/Map<*+Lp/Key;>.Entry;)V" ∧ shape.names = ["p/Key", "p/Map$Entry"] ∧
      shape.depth = 1 := by
  decide +kernel

end ClassFile.Signature
