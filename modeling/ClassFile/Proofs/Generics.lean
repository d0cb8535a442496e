import ClassFile.Proofs.Signatures
import ClassFile.Signature.Generic

/-!
# Formal type parameters

Formal type parameters in front of a signature are read where all of them have a bound: the classes
that the bounds name are found first, and the rest of the text is read as it is by itself, whatever
it is (`ClassFile.Signature.scan_formals`). A bound of an interface is enough, since the bound of a
class may be left out before it.

It may not be left out for good, though. A scanner that has read a parameter's name and its colon
wants a second colon or a type (`Mode.bound`), so it takes what follows a parameter without bounds
for its bound: it stops there if that begins no type.

That the rest is read as it is by itself is a property of every step: what was found before is
carried along and never looked at (`Scanner.step_behind`).
-/

namespace ClassFile.Signature

theorem deepest_append (types more : List TypeTree) :
    deepest (types ++ more) = max (deepest types) (deepest more) := by
  induction types with
  | nil => exact (Nat.zero_max _).symm
  | cons type types ih =>
    have hcons (types : List TypeTree) :
        deepest (type :: types) = max type.depth (deepest types) := rfl
    rw [List.cons_append, hcons, hcons, ih, Nat.max_assoc]

/-- How deep arguments nest in all of the bounds is bounded by what bounds it for each parameter. -/
theorem deepest_flatMap_le {formals : List Formal} {limit : Nat}
    (h : ∀ formal ∈ formals, formal.depth ≤ limit) :
    deepest (formals.flatMap Formal.bounds) ≤ limit := by
  induction formals with
  | nil => exact Nat.zero_le _
  | cons formal formals ih =>
    rw [List.flatMap_cons, deepest_append]
    exact Nat.max_le.2 ⟨h formal List.mem_cons_self, ih fun f hf => h f (List.mem_cons_of_mem _ hf)⟩

namespace Scanner

variable {s next : Scanner}

/-! ### What was found before -/

/-- The scanner as it would be if some classes had been found before. -/
def behind (s : Scanner) (earlier : List String) : Scanner :=
  { s with found := s.found ++ earlier }

/-- To open a bracket is the same whatever was found before. -/
theorem enter_behind (s : Scanner) (earlier : List String) (frame : Frame) :
    (s.behind earlier).enter frame = (s.enter frame).map (·.behind earlier) := by
  have hnesting : (s.behind earlier).nesting = s.nesting := rfl
  unfold enter
  rw [hnesting]
  by_cases hfull : s.nesting = nestingLimit
  · rw [if_pos hfull, if_pos hfull]
    rfl
  · rw [if_neg hfull, if_neg hfull]
    rfl

/-- To begin a type is the same whatever was found before. -/
theorem beginType_behind (s : Scanner) (earlier : List String) (c : Char) :
    (s.behind earlier).beginType c = (s.beginType c).map (·.behind earlier) := by
  simp only [beginType, enter_behind]
  repeat' split
  all_goals rfl

/-- An item of a list is read in the same way whatever was found before. -/
theorem item_behind (s : Scanner) (earlier : List String) (c : Char) :
    (s.behind earlier).item c = (s.item c).map (·.behind earlier) := by
  simp only [item, beginType_behind]
  simp only [behind]
  repeat' split
  all_goals rfl

theorem formal_behind (s : Scanner) (earlier : List String) (c : Char) :
    (s.behind earlier).formal c = (s.formal c).map (·.behind earlier) := by
  simp only [formal]
  repeat' split
  all_goals rfl

/-- The first character of a text is read in the same way as well. -/
theorem opening_behind (s : Scanner) (earlier : List String) (c : Char) :
    (s.behind earlier).opening c = (s.opening c).map (·.behind earlier) := by
  simp only [opening, item_behind]
  split <;> rfl

/-- No step looks at what was found before: names are only added to it. -/
theorem step_behind (s : Scanner) (earlier : List String) (c : Char) :
    (s.behind earlier).step c = (s.step c).map (·.behind earlier) := by
  have hmode : (s.behind earlier).mode = s.mode := rfl
  rw [step, step, hmode]
  cases s.mode with
  | start =>
    simp only [opening_behind]
    split <;> rfl
  | opening => exact opening_behind s earlier c
  | formal => exact formal_behind s earlier c
  | identifier => simp only; split <;> rfl
  | bound =>
    simp only [beginType_behind]
    split <;> rfl
  | afterBound =>
    simp only [formal_behind]
    split <;> rfl
  | item => exact item_behind s earlier c
  | type => exact beginType_behind s earlier c
  | «variable» => simp only; split <;> rfl
  | name reversed =>
    simp only [enter_behind]
    repeat' split
    all_goals rfl

/-- So no text is read differently for it, and the names that the text itself gives are added in
front. -/
theorem run_behind (s : Scanner) (earlier : List String) (chars : List Char) :
    (s.behind earlier).run chars = ((s.run chars).1.behind earlier, (s.run chars).2) := by
  induction chars generalizing s with
  | nil => rfl
  | cons c chars ih =>
    rw [run, run, step_behind]
    cases s.step c with
    | error _ => rfl
    | ok next => exact ih next

/-! ### Formal type parameters -/

/-- The scanner stands between two formal type parameters, or in front of the first one. -/
structure Heading (s : Scanner) : Prop where
  ground : s.ground = .formals
  stack : s.stack = []
  mode : s.mode = .formal ∨ s.mode = .afterBound

theorem Heading.telling (h : s.Heading) (names : List String) : (s.telling names).Heading :=
  ⟨h.ground, h.stack, h.mode⟩

/-- A further bound may follow as well as a parameter, but only behind a bound. -/
theorem Heading.step (h : s.Heading) {c : Char} (hc : c ≠ ':') : s.step c = s.formal c := by
  rw [Scanner.step]
  obtain hmode | hmode := h.mode
  · rw [hmode]
  · rw [hmode]
    exact if_neg hc

/-- Behind a bound there is room for another one, or for a parameter: that is what completes a type
among formal type parameters. -/
theorem Heading.completed (h : s.Heading) : s.completed = { s with mode := .afterBound } := by
  rw [Scanner.completed, afterType, h.stack, h.ground]

/-- The rest of a parameter's name is read, up to the colon behind it. -/
theorem goes_identifier {name : List Char} (h : ∀ c ∈ name, c ≠ ':') (s : Scanner) :
    ({ s with mode := .identifier } : Scanner).Goes (name ++ [':']) 0
      { s with mode := .bound } := by
  induction name with
  | nil => exact Goes.single rfl rfl
  | cons c name ih =>
    have hstep : ({ s with mode := .identifier } : Scanner).step c =
        .ok { s with mode := .identifier } := by
      simp [Scanner.step, h c List.mem_cons_self]
    exact Goes.cons hstep rfl (ih fun c hc => h c (List.mem_cons_of_mem _ hc))

/-- The name of a parameter is read, with the colon behind it. It is the name of no class. -/
theorem goes_parameterName (name : ParameterName) (h : s.Heading) :
    s.Goes (name.chars ++ [':']) 0 { s with mode := .bound } := by
  obtain ⟨c, rest, hchars⟩ := List.exists_cons_of_ne_nil name.ne_nil
  have hunmarked : ∀ c ∈ name.chars, c ≠ ':' ∧ c ≠ '>' := by
    intro c hc
    have hmarks := name.unmarked c hc
    simp only [List.mem_cons, not_or] at hmarks
    obtain ⟨-, -, -, -, -, hangle, hcolon, -⟩ := hmarks
    exact ⟨hcolon, hangle⟩
  rw [hchars] at hunmarked ⊢
  obtain ⟨hcolon, hangle⟩ := hunmarked c List.mem_cons_self
  have hstep : s.step c = .ok { s with mode := .identifier } := by
    rw [h.step hcolon, Scanner.formal, if_neg hangle, if_neg hcolon]
  exact Goes.cons hstep rfl
    (goes_identifier (fun c hc => (hunmarked c (List.mem_cons_of_mem _ hc)).1) s)

theorem awaits_of_bound (s : Scanner) : ({ s with mode := .bound } : Scanner).Awaits := by
  have hcolon : ∀ c ∈ "BCDFIJSZV+-*TL[".toList, c ≠ ':' := by simp
  intro c hc
  exact if_neg (hcolon c hc)

/-- A bound is read where a type may begin, and its classes are found. Afterwards there may be
another bound. -/
theorem Heading.goes_bound (h : s.Heading) {mode : Mode}
    (hawaits : ({ s with mode } : Scanner).Awaits) (bound : NamedType) :
    ({ s with mode } : Scanner).Goes bound.type.chars bound.type.depth
      ({ s with mode := .afterBound }.telling bound.type.names) := by
  have htype := goes_type bound.type _ hawaits
  rwa [show ({ s with mode } : Scanner).completed = { s with mode := .afterBound } from
    h.completed] at htype

/-- The bounds of interfaces that stand behind another bound are read, each after its colon. -/
theorem goes_interfaceBounds (bounds : List NamedType) (h : s.Heading) :
    ({ s with mode := .afterBound } : Scanner).Goes (bounds.flatMap (':' :: ·.type.chars))
      (deepest (bounds.map NamedType.type))
      ({ s with mode := .afterBound }.telling
        ((bounds.map NamedType.type).flatMap TypeTree.names)) := by
  induction bounds generalizing s with
  | nil => exact Goes.nil _
  | cons bound bounds ih =>
    have hfirst := Goes.cons (s := { s with mode := .afterBound }) (c := ':') rfl rfl
      (h.goes_bound (awaits_of_type s) bound)
    rw [List.map_cons, List.flatMap_cons, List.flatMap_cons, ← telling_telling]
    exact hfirst.append (ih (h.telling bound.type.names))

/-- The bounds of a parameter are read, if it has any: the bound of a class may be left out where
one of an interface follows. -/
theorem goes_bounds {formal : Formal} (hbounded : formal.Bounded) (h : s.Heading) :
    ({ s with mode := .bound } : Scanner).Goes
      (formal.classBound.toList.flatMap (·.type.chars) ++
        formal.interfaceBounds.flatMap (':' :: ·.type.chars)) formal.depth
      ({ s with mode := .afterBound }.telling formal.names) := by
  obtain ⟨name, classBound, interfaceBounds⟩ := formal
  cases classBound with
  | some bound =>
    have hclass := (h.goes_bound (awaits_of_bound s) bound).append
      (goes_interfaceBounds interfaceBounds (h.telling bound.type.names))
    simpa [Formal.depth, Formal.names, Formal.bounds, deepest, telling] using hclass
  | none =>
    cases interfaceBounds with
    | nil => exact absurd rfl hbounded
    | cons bound bounds =>
      -- a second colon stands where the class bound was left out
      have hfirst := Goes.cons (s := { s with mode := .bound }) (c := ':') rfl rfl
        (h.goes_bound (awaits_of_type s) bound)
      have hall := hfirst.append (goes_interfaceBounds bounds (h.telling bound.type.names))
      simpa [Formal.depth, Formal.names, Formal.bounds, deepest, telling] using hall

/-- A parameter with bounds is read, its name as well as its bounds. -/
theorem goes_formal {formal : Formal} (hbounded : formal.Bounded) (h : s.Heading) :
    s.Goes formal.chars formal.depth ({ s with mode := .afterBound }.telling formal.names) := by
  have hall := (goes_parameterName formal.name h).append (goes_bounds hbounded h)
  simpa [Formal.chars] using hall

/-- Parameters with bounds are read one after the other. Behind each of them the next may begin, as
may the end of the list. -/
theorem goes_formals {formals : List Formal} (hbounded : ∀ formal ∈ formals, formal.Bounded)
    (h : s.Heading) :
    ∃ mode, (mode = .formal ∨ mode = .afterBound) ∧
      s.Goes (formals.flatMap Formal.chars) (deepest (formals.flatMap Formal.bounds))
        ({ s with mode }.telling (formals.flatMap Formal.names)) := by
  induction formals generalizing s with
  | nil => exact ⟨s.mode, h.mode, Goes.nil s⟩
  | cons formal formals ih =>
    have hfirst := goes_formal (hbounded formal List.mem_cons_self) h
    have hbehind : ({ s with mode := .afterBound }.telling formal.names).Heading :=
      ⟨h.ground, h.stack, .inr rfl⟩
    obtain ⟨mode, hmode, hrest⟩ := ih (fun f hf => hbounded f (List.mem_cons_of_mem _ hf)) hbehind
    refine ⟨mode, hmode, ?_⟩
    rw [List.flatMap_cons, List.flatMap_cons, List.flatMap_cons, deepest_append,
      ← telling_telling]
    exact hfirst.append hrest

/-- What precedes the first formal type parameter has been read. -/
def heading : Scanner := { initial with ground := .formals, mode := .formal }

theorem heading_heading : heading.Heading := ⟨rfl, rfl, .inl rfl⟩

/-- All of the formal type parameters are read, with the brackets around them. -/
theorem goes_formalsChars {formals : List Formal}
    (hbounded : ∀ formal ∈ formals, formal.Bounded) :
    initial.Goes (formalsChars formals) (deepest (formals.flatMap Formal.bounds))
      ({ initial with mode := .opening }.telling (formals.flatMap Formal.names)) := by
  obtain ⟨mode, hmode, hformals⟩ := goes_formals hbounded heading_heading
  have hclose : ({ heading with mode }.telling (formals.flatMap Formal.names)).step '>' =
      .ok ({ initial with mode := .opening }.telling (formals.flatMap Formal.names)) := by
    obtain rfl | rfl := hmode <;> rfl
  have hall := Goes.cons (s := initial) (c := '<') rfl rfl
    (hformals.append (Goes.single hclose rfl))
  rwa [Nat.max_zero] at hall

/-- A parameter without bounds is refused where the text goes on with what begins no type. -/
theorem run_unbounded {formal : Formal} (hunbounded : ¬formal.Bounded) (h : s.Heading)
    (hroom : s.nesting ≤ nestingLimit) {c : Char} (hmarks : c ∉ ['[', '<', ':'])
    (hc : c ∉ "BCDFIJSZV+-*TL".toList) (rest : List Char) :
    s.run (formal.chars ++ c :: rest) =
      ({ s with mode := .bound }, some (.unexpected (leadByte c))) := by
  have hbounds : formal.classBound.toList ++ formal.interfaceBounds = [] :=
    List.map_eq_nil_iff.1 (Decidable.of_not_not hunbounded)
  obtain ⟨hclass, hinterfaces⟩ := List.append_eq_nil_iff.1 hbounds
  have hchars : formal.chars = formal.name.chars ++ [':'] := by
    simp [Formal.chars, hclass, hinterfaces]
  have hmark {d : Char} (hd : d ∈ ['[', '<', ':']) : c ≠ d := fun hcd => hmarks (hcd ▸ hd)
  have hletter {d : Char} (hd : d ∈ "BCDFIJSZV+-*TL".toList) : c ≠ d := fun hcd => hc (hcd ▸ hd)
  have hsimple : isSimple c ≠ true := fun hmem =>
    hc (List.mem_append_left ['T', 'L'] (List.contains_iff_mem.1 hmem))
  -- a second colon or a type is wanted, and the character begins neither
  have hstep : ({ s with mode := .bound } : Scanner).step c =
      .error (.unexpected (leadByte c)) := by
    simp only [step, beginType]
    rw [if_neg (hmark (by decide)), if_neg (hmark (by decide)), if_neg (hmark (by decide)),
      if_neg (hletter (by decide)), if_neg (hletter (by decide)), if_neg hsimple]
  rw [hchars, (goes_parameterName formal.name h).passes (by omega), run, hstep]

/-- What follows the formal type parameters is read like a text by itself. -/
theorem run_opening {c : Char} (hc : c ≠ '<') (rest : List Char) :
    (({ initial with mode := .opening } : Scanner).run (c :: rest)).1.found =
        (initial.run (c :: rest)).1.found ∧
      (({ initial with mode := .opening } : Scanner).run (c :: rest)).2 =
        (initial.run (c :: rest)).2 := by
  have hstart : initial.step c = initial.opening c := if_neg hc
  have hopening : ({ initial with mode := .opening } : Scanner).step c = initial.opening c := rfl
  rw [run, run, hstart, hopening]
  cases initial.opening c with
  | error _ => exact ⟨rfl, rfl⟩
  | ok next => exact ⟨rfl, rfl⟩

end Scanner

open Scanner

/-- The first character of a type is never the bracket that opens a list of parameters. -/
theorem TypeTree.chars_eq_cons (type : TypeTree) :
    ∃ c rest, type.chars = c :: rest ∧ c ≠ '<' := by
  cases type with
  | primitive primitive => exact ⟨_, _, rfl, by cases primitive <;> decide⟩
  | array element => exact ⟨_, _, rfl, by decide⟩
  | «variable» name => exact ⟨_, _, rfl, by decide⟩
  | object named => exact ⟨_, _, rfl, by decide⟩

/-- No shape begins as formal type parameters do, so a shape behind them cannot be taken for more of
them. -/
theorem Shape.chars_eq_cons (shape : Shape) : ∃ c rest, shape.chars = c :: rest ∧ c ≠ '<' := by
  cases shape with
  | types first rest =>
    obtain ⟨c, chars, hchars, hc⟩ := first.chars_eq_cons
    exact ⟨c, chars ++ rest.flatMap TypeTree.chars, by rw [Shape.chars, hchars]; rfl, hc⟩
  | method parameters result => exact ⟨_, _, rfl, by decide⟩

/-- What the scan of a text comes to is found in reverse, and a fault has the whole text in it. -/
theorem scan_ofList (chars : List Char) :
    scan (String.ofList chars) = ⟨(initial.run chars).1.found.reverse,
      (initial.run chars).2.map (.descriptor (String.ofList chars))⟩ := by
  rw [scan, String.toList_ofList]

/-- A shape is read back where it is all of the text, with its names and without a fault. -/
theorem Shape.run_chars {shape : Shape} (hdepth : shape.depth ≤ nestingLimit) :
    (initial.run shape.chars).1.found = shape.names.reverse ∧
      (initial.run shape.chars).2 = none := by
  have hroom : initial.nesting = 0 := rfl
  have hrun := (goes_shape shape).passes (by omega) []
  rw [List.append_nil] at hrun
  rw [hrun]
  exact ⟨List.append_nil _, rfl⟩

/-- Bounded parameters are in the way of nothing that follows them: it is read as if it stood alone,
but for their names in front. -/
theorem scan_formals_append {formals : List Formal}
    (hdepth : ∀ formal ∈ formals, formal.depth ≤ nestingLimit)
    (hbounded : ∀ formal ∈ formals, formal.Bounded) {c : Char} (hc : c ≠ '<') (rest : List Char) :
    scan (String.ofList (formalsChars formals ++ c :: rest)) =
      ⟨formals.flatMap Formal.names ++ (initial.run (c :: rest)).1.found.reverse,
        (initial.run (c :: rest)).2.map
          (.descriptor (String.ofList (formalsChars formals ++ c :: rest)))⟩ := by
  obtain ⟨hfound, hfault⟩ := run_opening hc rest
  -- the classes in the bounds are all that the rest of the text can tell the parameters by
  have htold :
      ({ initial with mode := .opening } : Scanner).telling (formals.flatMap Formal.names) =
        ({ initial with mode := .opening } : Scanner).behind
          (formals.flatMap Formal.names).reverse := by
    simp [telling, behind, initial]
  have hroom : initial.nesting + deepest (formals.flatMap Formal.bounds) ≤ nestingLimit := by
    rw [show initial.nesting = 0 from rfl, Nat.zero_add]
    exact deepest_flatMap_le hdepth
  have hrun : initial.run (formalsChars formals ++ c :: rest) =
      ((({ initial with mode := .opening } : Scanner).run (c :: rest)).1.behind
          (formals.flatMap Formal.names).reverse,
        (({ initial with mode := .opening } : Scanner).run (c :: rest)).2) := by
    rw [(goes_formalsChars hbounded).passes hroom, htold, run_behind]
  rw [scan_ofList, hrun, hfault, ← hfound]
  simp [behind]

/-- What follows a parameter is the bracket that ends the list, or begins the name of the next
parameter. -/
theorem unmarked_of_head {formals : List Formal} {rest : List Char} {c : Char}
    (h : (formals.flatMap Formal.chars ++ '>' :: rest).head? = some c) : c ∉ ['[', '<', ':'] := by
  cases formals with
  | nil =>
    cases h
    decide
  | cons formal formals =>
    obtain ⟨d, chars, hchars⟩ := List.exists_cons_of_ne_nil formal.name.ne_nil
    have hmarks := formal.name.unmarked d (hchars ▸ List.mem_cons_self)
    simp only [List.flatMap_cons, Formal.chars, hchars, List.cons_append, List.head?_cons,
      Option.some.injEq] at h
    subst h
    simp only [List.mem_cons, not_or] at hmarks ⊢
    obtain ⟨-, -, hsquare, -, hangle, -, hcolon, hnil⟩ := hmarks
    exact ⟨hsquare, hangle, hcolon, hnil⟩

/-- The first parameter without bounds is where a text is refused, since a bound is expected there.
What stood in front of it was found by then. -/
theorem scan_formals_unbounded {before after : List Formal} {formal : Formal}
    (hdepth : ∀ formal ∈ before, formal.depth ≤ nestingLimit)
    (hbefore : ∀ formal ∈ before, formal.Bounded) (hunbounded : ¬formal.Bounded)
    {rest : List Char} {c : Char}
    (hnext : (after.flatMap Formal.chars ++ '>' :: rest).head? = some c)
    (hc : c ∉ "BCDFIJSZV+-*TL".toList) :
    scan (String.ofList (formalsChars (before ++ formal :: after) ++ rest)) =
      ⟨before.flatMap Formal.names,
        some (.descriptor (String.ofList (formalsChars (before ++ formal :: after) ++ rest))
          (.unexpected (leadByte c)))⟩ := by
  obtain ⟨mode, hmode, hgoes⟩ := goes_formals hbefore heading_heading
  have hroom : heading.nesting + deepest (before.flatMap Formal.bounds) ≤ nestingLimit := by
    rw [show heading.nesting = 0 from rfl, Nat.zero_add]
    exact deepest_flatMap_le hdepth
  have hreached : ({ heading with mode }.telling (before.flatMap Formal.names)).Heading :=
    ⟨rfl, rfl, hmode⟩
  obtain ⟨tail, htail⟩ := List.head?_eq_some_iff.1 hnext
  have hchars : formalsChars (before ++ formal :: after) ++ rest =
      '<' :: (before.flatMap Formal.chars ++ (formal.chars ++ c :: tail)) := by
    rw [← htail]
    simp [formalsChars]
  have hrun : initial.run (formalsChars (before ++ formal :: after) ++ rest) =
      ({ heading with mode := .bound }.telling (before.flatMap Formal.names),
        some (.unexpected (leadByte c))) := by
    -- up to the first parameter without bounds, and then behind its name
    calc initial.run (formalsChars (before ++ formal :: after) ++ rest)
      _ = heading.run (before.flatMap Formal.chars ++ (formal.chars ++ c :: tail)) := by
        rw [hchars]
        rfl
      _ = ({ heading with mode }.telling (before.flatMap Formal.names)).run
            (formal.chars ++ c :: tail) := hgoes.passes hroom _
      _ = _ := run_unbounded hunbounded hreached (Nat.zero_le _) (unmarked_of_head hnext) hc tail
  rw [scan_ofList, hrun]
  simp [telling, heading, initial]

/-- **Formal type parameters are read where each has a bound**, of a class or of an interface: the
classes that the bounds name are found in order, and then those of the rest, which may be any text
that does not begin with further parameters. With a parameter that has no bound the text is refused
if what follows that parameter begins no type. -/
theorem scan_formals {formals : List Formal}
    (hdepth : ∀ formal ∈ formals, formal.depth ≤ nestingLimit) :
    ((∀ formal ∈ formals, formal.Bounded) →
      (∀ shape : Shape, shape.depth ≤ nestingLimit →
        scan (String.ofList (formalsChars formals ++ shape.chars)) =
          ⟨formals.flatMap Formal.names ++ shape.names, none⟩) ∧
      ∀ (c : Char) (rest : List Char) (names : List String) (fault : Option DescriptorFault),
        c ≠ '<' →
        scan (String.ofList (c :: rest)) =
          ⟨names, fault.map (.descriptor (String.ofList (c :: rest)))⟩ →
        scan (String.ofList (formalsChars formals ++ c :: rest)) =
          ⟨formals.flatMap Formal.names ++ names,
            fault.map (.descriptor (String.ofList (formalsChars formals ++ c :: rest)))⟩) ∧
    ∀ (before after : List Formal) (formal : Formal) (rest : List Char) (c : Char),
      formals = before ++ formal :: after → (∀ formal ∈ before, formal.Bounded) →
      ¬formal.Bounded → (after.flatMap Formal.chars ++ '>' :: rest).head? = some c →
      c ∉ "BCDFIJSZV+-*TL".toList →
      scan (String.ofList (formalsChars formals ++ rest)) =
        ⟨before.flatMap Formal.names,
          some (.descriptor (String.ofList (formalsChars formals ++ rest))
            (.unexpected (leadByte c)))⟩ := by
  refine ⟨fun hbounded => ⟨fun shape hshape => ?_, fun c rest names fault hc hscan => ?_⟩, ?_⟩
  · obtain ⟨c, rest, hchars, hc⟩ := shape.chars_eq_cons
    obtain ⟨hfound, hfault⟩ := shape.run_chars hshape
    rw [hchars] at hfound hfault ⊢
    rw [scan_formals_append hdepth hbounded hc, hfound, hfault, List.reverse_reverse]
    rfl
  · rw [scan_ofList, Scan.mk.injEq] at hscan
    obtain ⟨hnames, hfault⟩ := hscan
    rw [scan_formals_append hdepth hbounded hc, hnames]
    -- the fault of the rest names another text, but says the same of it
    have hinj : (initial.run (c :: rest)).2 = fault :=
      Option.map_injective (fun _ _ h => (Fault.descriptor.inj h).2) hfault
    rw [hinj]
  · intro before after formal rest c hsplit hbefore hunbounded hnext hc
    subst hsplit
    have hdepthBefore : ∀ formal ∈ before, formal.depth ≤ nestingLimit := fun formal hf =>
      hdepth formal (List.mem_append_left _ hf)
    exact scan_formals_unbounded hdepthBefore hbefore hunbounded hnext hc

/-- A parameter with both kinds of bounds and one with an interface only are read, with the type
behind them. After one with a bound stands one with none, and there the text is refused. -/
theorem scan_formals_of_bounds :
    scan "<T:Lp/A;:Lp/B<Lp/C;>;U::TT;>Lp/D;" = ⟨["p/A", "p/C", "p/B", "p/D"], none⟩ ∧
      scan "<T:Lp/A;U:>Lp/D;" =
        ⟨["p/A"], some (.descriptor "<T:Lp/A;U:>Lp/D;" (.unexpected '>'))⟩ := by
  let generic : ClassTree := .outermost ⟨['p', '/', 'B'], by simp, by simp⟩
    [.type .exactly (.object (.plain "p/C" (by simp)))]
  let first : Formal := ⟨⟨['T'], by simp, by simp⟩, some (.object (.plain "p/A" (by simp))),
    [.object generic]⟩
  let second : Formal := ⟨⟨['U'], by simp, by simp⟩, none,
    [.variable ⟨['T'], by simp, by simp⟩]⟩
  let third : Formal :=
    ⟨⟨['T'], by simp, by simp⟩, some (.object (.plain "p/A" (by simp))), []⟩
  let bare : Formal := ⟨⟨['U'], by simp, by simp⟩, none, []⟩
  have hbounded := (@scan_formals [first, second] (by decide)).1 (by decide)
  have hunbounded := (@scan_formals [third, bare] (by decide)).2
  exact ⟨hbounded.1 (.types (.object (.plain "p/D" (by simp))) []) (by decide),
    hunbounded [third] [] bare "Lp/D;".toList '>' rfl (by decide) (by decide) rfl (by decide)⟩

/-- A parameter without bounds in front of the class that is extended: it is as good as any, and the
text is refused. -/
theorem scan_formals_differs :
    ∃ (formals : List Formal) (shape : Shape), formals ≠ [] ∧
      (∀ formal ∈ formals, formal.depth ≤ nestingLimit) ∧ shape.depth ≤ nestingLimit ∧
      String.ofList (formalsChars formals ++ shape.chars) = "<T:>Ljava/lang/Object;" ∧
      formals.flatMap Formal.names ++ shape.names = ["java/lang/Object"] ∧
      scan (String.ofList (formalsChars formals ++ shape.chars)) =
        ⟨[], some (.descriptor "<T:>Ljava/lang/Object;" (.unexpected '>'))⟩ :=
  ⟨[⟨⟨['T'], by simp, by simp⟩, none, []⟩],
    .types (.object (.plain "java/lang/Object" (by simp))) [], by decide, by decide, by decide,
    by decide, by decide, by decide⟩

end ClassFile.Signature
