import ClassFile.Name.Register
import ClassFile.Proofs.Names
import Mathlib.Data.List.Forall2

/-!
# What a register answers

A register answers a request by what was made for the first request of the same key
(`ClassFile.Register.serve_eq_map`). The key of a type is its name, and so is that of an ordinary
package, so nearly every answer is what belongs to its request
(`ClassFile.Request.plain_eq_of_key`). One key is shared, by the package of the primitive types and
the ordinary package of that name, and it is enough to keep what is filed under it
(`ClassFile.Register.Agrees.answer`).

What belongs to a request is what the name in it means (`ClassFile.Request.means_iff`): the name
inside an enclosure, and the package that stands before the last slash of the element's name.
Therefore the answers are canonical as long as the two packages are not both requested, and no
longer (`ClassFile.Register.serve_canonical`).
-/

namespace ClassFile

/-! ### Keys -/

namespace Package

/-- An ordinary package has its name as its key. -/
theorem eq_of_key {named : TypeName} (h : (ofType named).primitive = false) :
    ofType named = ⟨(ofType named).key, false⟩ := by
  rw [key, h]
  cases hpackage : ofType named
  rw [hpackage] at h
  cases h
  rfl

end Package

namespace Request

/-- Under what an answer is filed: each table has keys of its own. -/
inductive Key where
  | type (name : String)
  | package (name : String)
  deriving DecidableEq, Repr

/-- The key of what is requested. -/
def key : Request → Key
  | .type text => .type (TypeName.ofText text).binary
  | .dottedType text => .type (TypeName.ofDotted text).binary
  | .package named => .package (Package.ofType named).key

/-- The key that two packages share. -/
def sharedKey : Key := .package PackageTable.primitiveKey

/-- The package of some type is requested, and this is the package of it. -/
def AsksFor (requests : List Request) (package : Package) : Prop :=
  ∃ named, Request.package named ∈ requests ∧ Package.ofType named = package

/-- Only the package of the primitive types and an ordinary one have the shared key. -/
theorem plain_of_sharedKey {request : Request} (h : request.key = sharedKey) :
    ∃ named, request = .package named ∧
      (Package.ofType named = .ofPrimitives ∨
        Package.ofType named = ⟨PackageTable.primitiveKey, false⟩) := by
  cases request with
  | type | dottedType => cases h
  | package named =>
    refine ⟨named, rfl, ?_⟩
    cases hprimitive : (Package.ofType named).primitive with
    | true => exact .inl (Package.eq_ofPrimitives hprimitive)
    | false => exact .inr (Key.package.inj h ▸ Package.eq_of_key hprimitive)

/-- Any other key tells what belongs to the request. -/
theorem plain_eq_of_key {request other : Request} (h : request.key = other.key)
    (hkey : other.key ≠ sharedKey) : request.plain = other.plain := by
  have htype {first second : TypeName} (h : first.binary = second.binary) : first = second := by
    cases first
    cases h
    rfl
  have hordinary {named : TypeName} (h : (Request.package named).key ≠ sharedKey) :
      (Package.ofType named).primitive = false :=
    Bool.eq_false_iff.2 fun hprimitive =>
      h (congrArg Key.package (Package.key_eq_primitiveKey_iff.2 (.inl hprimitive)))
  cases request with
  | type | dottedType =>
    cases other with
    | type | dottedType => exact congrArg Handout.type (htype (Key.type.inj h))
    | package => cases h
  | package named =>
    cases other with
    | type | dottedType => cases h
    | package other =>
      rw [plain, plain, Package.eq_of_key (hordinary (h ▸ hkey)),
        Package.eq_of_key (hordinary hkey), Key.package.inj h]

/-! ### Serving requests -/

/-- Two ways of answering come to the same answers if what they keep stays related. -/
theorem serve_congr {σ τ : Type} {answer : Request → σ → Handout × σ}
    {answer' : Request → τ → Handout × τ} {R : σ → τ → Prop}
    (hstep : ∀ {request s t}, R s t → (answer request s).1 = (answer' request t).1 ∧
      R (answer request s).2 (answer' request t).2)
    (requests : List Request) {s : σ} {t : τ} (h : R s t) :
    (serve answer requests s).1 = (serve answer' requests t).1 := by
  induction requests generalizing s t with
  | nil => rfl
  | cons request requests ih =>
    obtain ⟨hsame, hnext⟩ := @hstep request s t h
    exact congrArg₂ List.cons hsame (ih hnext)

end Request

/-! ### What is filed -/

namespace Register

variable {α β : Type}

/-- What is looked up is what is filed, if anything is. -/
theorem lookUp_fst (f : α → β) (table : Std.ExtTreeMap String α) (name : String) (fresh : α) :
    f (lookUp table name fresh).1 = (table[name]?.map f).getD (f fresh) := by
  rw [lookUp]
  cases table[name]? <;> rfl

/-- What is looked up is filed then, and nothing else changes. -/
theorem getElem?_lookUp (f : α → β) (table : Std.ExtTreeMap String α) (name : String) (fresh : α)
    (other : String) : (lookUp table name fresh).2[other]?.map f =
      if name = other then some (f (lookUp table name fresh).1) else table[other]?.map f := by
  rw [lookUp]
  cases hfiled : table[name]? with
  | some filed =>
    dsimp only
    split
    · rename_i hname
      rw [← hname, hfiled]
      rfl
    · rfl
  | none =>
    dsimp only
    rw [Std.ExtTreeMap.getElem?_insert, apply_ite (Option.map f)]
    simp only [Std.compare_eq_iff_eq, Option.map_some]

/-- The answer that is filed under a key. -/
def filed (register : Register) : Request.Key → Option Handout
  | .type name => register.types[name]?.map .type
  | .package name => register.packages[name]?.map .package

theorem filed_empty (key : Request.Key) : empty.filed key = none := by
  cases key <;> simp [filed, empty]

theorem answer_fst (request : Request) (register : Register) :
    (answer request register).1 = (register.filed request.key).getD request.plain := by
  cases request with
  | type | dottedType => exact lookUp_fst Handout.type ..
  | package named => exact lookUp_fst Handout.package ..

/-- The answer to a request is filed under its key, and nothing else changes. -/
theorem filed_answer (request : Request) (register : Register) (key : Request.Key) :
    (answer request register).2.filed key =
      if request.key = key then some (answer request register).1 else register.filed key := by
  cases request with
  | type | dottedType =>
    cases key with
    | type name =>
      exact (getElem?_lookUp Handout.type ..).trans
        (if_congr (by simp [Request.key, TypeName.ofDotted]) rfl rfl)
    | package name => rfl
  | package named =>
    cases key with
    | type name => rfl
    | package name =>
      exact (getElem?_lookUp Handout.package ..).trans (if_congr (by simp [Request.key]) rfl rfl)

/-- Every request is answered by what is filed under its key in the beginning, or else by what
belongs to the first request of the key. -/
theorem serve_eq_map (requests : List Request) (register : Register) :
    (Request.serve answer requests register).1 = requests.map fun request =>
      ((register.filed request.key).or
        ((requests.find? (·.key = request.key)).map Request.plain)).getD request.plain := by
  induction requests generalizing register with
  | nil => rfl
  | cons request requests ih =>
    refine congrArg₂ List.cons ?_ ((ih (answer request register).2).trans
      (List.map_congr_left fun other _ => ?_))
    · refine (answer_fst request register).trans ?_
      dsimp only
      rw [List.find?_cons_of_pos (by simp)]
      cases register.filed request.key <;> rfl
    · rw [filed_answer]
      -- what is filed now is what belongs to the first request of the key, or was there before
      by_cases hkey : request.key = other.key
      · rw [if_pos hkey, answer_fst, ← hkey, List.find?_cons_of_pos (by simp)]
        cases register.filed request.key <;> rfl
      · rw [if_neg hkey, List.find?_cons_of_neg (by simpa using hkey)]

/-! ### What a namer keeps of it -/

/-- A register has filed what a table tells under the shared key, and under any other key what
belongs to the requests of it. -/
structure Agrees (register : Register) (table : PackageTable) : Prop where
  holder : register.filed Request.sharedKey = table.holder.map .package
  unshared : ∀ {request : Request} {answer : Handout}, request.key ≠ Request.sharedKey →
    register.filed request.key = some answer → answer = request.plain

theorem agrees_empty : empty.Agrees {} where
  holder := filed_empty _
  unshared _ hfiled := by
    rw [filed_empty] at hfiled
    cases hfiled

theorem shared_answer_package (named : TypeName) (table : PackageTable) :
    Namer.shared.answer (.package named) table =
      (table.handOut (.ofType named)).map Handout.package id := by
  rw [Namer.answer]
  rfl

/-- A namer files nothing under other keys than the shared one. -/
theorem shared_answer_of_key {request : Request} (hkey : request.key ≠ Request.sharedKey)
    (table : PackageTable) : Namer.shared.answer request table = (request.plain, table) := by
  cases request with
  | type | dottedType => rfl
  | package named =>
    have hout := mt Package.key_eq_primitiveKey_iff.2 fun h => hkey (congrArg Request.Key.package h)
    rw [shared_answer_package, PackageTable.handOut, if_neg hout]
    rfl

/-- Under the shared key, a namer files what is requested first. -/
theorem shared_answer_of_sharedKey {request : Request} (hkey : request.key = Request.sharedKey)
    (table : PackageTable) :
    (Namer.shared.answer request table).1 = (table.holder.map Handout.package).getD request.plain ∧
      (Namer.shared.answer request table).2.holder.map Handout.package =
        some (Namer.shared.answer request table).1 := by
  cases request with
  | type | dottedType => cases hkey
  | package named =>
    have hout := Package.key_eq_primitiveKey_iff.1 (Request.Key.package.inj hkey)
    rw [shared_answer_package, PackageTable.handOut, if_pos hout]
    cases hholder : table.holder with
    | none => exact ⟨rfl, rfl⟩
    | some holder => exact ⟨rfl, congrArg (Option.map Handout.package) hholder⟩

/-- A register and a namer that agree give the same answer to a request, and agree afterwards. -/
theorem Agrees.answer {register : Register} {table : PackageTable} (h : register.Agrees table)
    (request : Request) :
    (register.answer request).1 = (Namer.shared.answer request table).1 ∧
      (register.answer request).2.Agrees (Namer.shared.answer request table).2 := by
  by_cases hkey : request.key = Request.sharedKey
  · -- both answer with what is filed, and file the answer
    obtain ⟨hfirst, hholder⟩ := shared_answer_of_sharedKey hkey table
    have hsame : (register.answer request).1 = (Namer.shared.answer request table).1 := by
      rw [answer_fst, hkey, h.holder, hfirst]
    refine ⟨hsame, ?_, fun hother hfiled => ?_⟩
    · rw [filed_answer, if_pos hkey, hsame, hholder]
    · rw [filed_answer, if_neg (hkey ▸ hother.symm)] at hfiled
      exact h.unshared hother hfiled
  · -- the namer files nothing, and the register what belongs to the request
    have hsame : (register.answer request).1 = request.plain := by
      rw [answer_fst]
      cases hfiled : register.filed request.key with
      | none => rfl
      | some answer => exact h.unshared hkey hfiled
    rw [shared_answer_of_key hkey]
    refine ⟨hsame, ?_, fun {other _} hother hfiled => ?_⟩
    · rw [filed_answer, if_neg hkey, h.holder]
    · rw [filed_answer] at hfiled
      split at hfiled
      · rename_i hequal
        rw [← Option.some.inj hfiled, hsame]
        exact Request.plain_eq_of_key hequal hother
      · exact h.unshared hother hfiled

end Register

/-! ### What belongs to a request -/

namespace TypeName

/-- The name is what an enclosure `L…;` has inside, or the text, if there is no enclosure. -/
inductive Unwraps : List Char → List Char → Prop
  | inner (name : List Char) : Unwraps ('L' :: (name ++ [';'])) name
  | bare {text : List Char} : (∀ name, text ≠ 'L' :: (name ++ [';'])) → Unwraps text text

theorem unwraps_iff {text name : List Char} : Unwraps text name ↔ unwrapped text = name := by
  constructor
  · rintro (_ | hbare)
    · rcases unwrapped_eq ('L' :: (name ++ [';'])) with ⟨inner, hsame, hinner⟩ | ⟨hbare, -⟩
      · exact hinner.trans (List.append_cancel_right (List.cons.inj hsame).2).symm
      · exact absurd rfl (hbare name)
    · rcases unwrapped_eq text with ⟨inner, hinner, -⟩ | ⟨-, hsame⟩
      · exact absurd hinner (hbare inner)
      · exact hsame
  · rintro rfl
    rcases unwrapped_eq text with ⟨inner, rfl, hinner⟩ | ⟨hbare, hsame⟩
    · rw [hinner]
      exact .inner inner
    · rw [hsame]
      exact .bare hbare

/-- The name of the element of an array is what follows all brackets, with one enclosure taken off.
The element of any other type is the type itself. -/
inductive HasElement : List Char → List Char → Prop
  | itself {name : List Char} : name.head? ≠ some '[' → HasElement name name
  | array (brackets : Nat) {inner element : List Char} : inner.head? ≠ some '[' →
      Unwraps inner element → HasElement (List.replicate (brackets + 1) '[' ++ inner) element

theorem hasElement_iff {chars element : List Char} : HasElement chars element ↔
    (if chars.head? = some '[' then unwrapped (chars.dropWhile (· = '[')) else chars) =
      element := by
  constructor
  · rintro (hhead | ⟨brackets, hinner, hunwraps⟩)
    · rw [if_neg hhead]
    · rw [dropWhile_brackets hinner, unwraps_iff.1 hunwraps]
      exact if_pos rfl
  · rintro rfl
    split
    · rename_i hhead
      have hinner : (chars.dropWhile (· = '[')).head? ≠ some '[' := fun h => by
        have hnot := List.head?_dropWhile_not (· = '[') chars
        rw [h] at hnot
        exact absurd hnot (by decide)
      obtain ⟨brackets, hbrackets⟩ := brackets_append_dropWhile chars
      generalize chars.dropWhile (· = '[') = inner at hinner hbrackets ⊢
      subst hbrackets
      cases brackets with
      | zero => exact absurd hhead hinner
      | succ brackets => exact .array brackets hinner (unwraps_iff.2 rfl)
    · rename_i hhead
      exact .itself hhead

/-- The letters of the primitive types and of `void`. -/
def primitiveLetters : List Char := ['V', 'Z', 'S', 'I', 'J', 'F', 'D', 'B', 'C']

theorem isPrimitiveLetter_iff {chars : List Char} :
    isPrimitiveLetter chars = true ↔ ∃ letter ∈ primitiveLetters, chars = [letter] := by
  constructor
  · intro h
    match chars, h with
    | [letter], h => exact ⟨letter, List.contains_iff_mem.1 h, rfl⟩
  · rintro ⟨letter, hletter, rfl⟩
    exact List.contains_iff_mem.2 hletter

end TypeName

namespace Package

/-- The package is the one of an element with this name. -/
inductive Holds : Package → List Char → Prop
  | primitive {letter : Char} : letter ∈ TypeName.primitiveLetters → Holds .ofPrimitives [letter]
  | named (front : List Char) {short : List Char} : '/' ∉ short →
      Holds ⟨String.ofList front, false⟩ (front ++ '/' :: short)
  | unnamed {element : List Char} : '/' ∉ element →
      (∀ letter ∈ TypeName.primitiveLetters, element ≠ [letter]) → Holds ⟨"", false⟩ element

theorem holds_iff {package : Package} {element : List Char} : package.Holds element ↔
    (if TypeName.isPrimitiveLetter element then ofPrimitives
      else ⟨String.ofList (beforeSlash element), false⟩) = package := by
  constructor
  · rintro (hletter | ⟨front, hshort⟩ | ⟨hslash, hother⟩)
    · rw [if_pos (TypeName.isPrimitiveLetter_iff.2 ⟨_, hletter, rfl⟩)]
    · rw [TypeName.isPrimitiveLetter_of_slash (by simp), beforeSlash_append front hshort]
      rfl
    · rw [if_neg, beforeSlash_of_not_mem hslash]
      intro hletter
      obtain ⟨letter, hmem, hsame⟩ := TypeName.isPrimitiveLetter_iff.1 hletter
      exact hother letter hmem hsame
  · rintro rfl
    split
    · rename_i hletter
      obtain ⟨letter, hmem, rfl⟩ := TypeName.isPrimitiveLetter_iff.1 hletter
      exact .primitive hmem
    · rename_i hletter
      by_cases hslash : '/' ∈ element
      · obtain ⟨short, hshort, helement⟩ := eq_beforeSlash_append hslash
        have hholds := Holds.named (beforeSlash element) hshort
        rwa [← helement] at hholds
      · rw [beforeSlash_of_not_mem hslash]
        exact .unnamed hslash fun letter hmem hsame =>
          hletter (TypeName.isPrimitiveLetter_iff.2 ⟨letter, hmem, hsame⟩)

theorem ofType_eq_iff {type : TypeName} {package : Package} : ofType type = package ↔
    ∃ element, TypeName.HasElement type.binary.toList element ∧ package.Holds element := by
  have helement : (type.element?.getD type.binary).toList =
      if type.binary.toList.head? = some '[' then
        TypeName.unwrapped (type.binary.toList.dropWhile (· = '['))
      else type.binary.toList := by
    rw [TypeName.element?, TypeName.isArray]
    by_cases hhead : type.binary.toList.head? = some '[' <;> simp [hhead]
  rw [ofType, helement]
  constructor
  · intro h
    exact ⟨_, TypeName.hasElement_iff.2 rfl, holds_iff.2 h⟩
  · rintro ⟨element, hhas, hholds⟩
    rw [TypeName.hasElement_iff.1 hhas]
    exact holds_iff.1 hholds

end Package

namespace Request

/-- An answer tells what the name in a request means, and nothing of other requests. -/
inductive Means : Request → Handout → Prop
  | type {text : String} {name : List Char} : TypeName.Unwraps text.toList name →
      Means (.type text) (.type ⟨String.ofList name⟩)
  | dottedType {text : String} {name : List Char} :
      TypeName.Unwraps (text.toList.map fun c => if c = '.' then '/' else c) name →
      Means (.dottedType text) (.type ⟨String.ofList name⟩)
  | package {named : TypeName} {element : List Char} {package : Package} :
      TypeName.HasElement named.binary.toList element → package.Holds element →
      Means (.package named) (.package package)

theorem means_iff {request : Request} {answer : Handout} :
    request.Means answer ↔ answer = request.plain := by
  constructor
  · rintro (hname | hname | ⟨hhas, hholds⟩)
    · rw [plain, TypeName.ofText, TypeName.unwraps_iff.1 hname]
    · rw [plain, TypeName.ofDotted, TypeName.ofText, TypeName.slashed, String.toList_ofList,
        TypeName.unwraps_iff.1 hname]
    · rw [plain, Package.ofType_eq_iff.2 ⟨_, hhas, hholds⟩]
  · rintro rfl
    cases request with
    | type text => exact .type (TypeName.unwraps_iff.2 rfl)
    | dottedType text =>
      refine .dottedType (TypeName.unwraps_iff.2 ?_)
      rw [TypeName.slashed, String.toList_ofList]
    | package named =>
      obtain ⟨element, hhas, hholds⟩ := Package.ofType_eq_iff.1 (rfl : Package.ofType named = _)
      exact .package hhas hholds

/-- The first request of the same key. -/
def first (requests : List Request) (request : Request) : Request :=
  (requests.find? (·.key = request.key)).getD request

variable {requests : List Request} {request : Request}

theorem exists_first (h : request ∈ requests) : ∃ other ∈ requests, other.key = request.key ∧
    requests.find? (·.key = request.key) = some other := by
  have hsome : (requests.find? (·.key = request.key)).isSome :=
    List.find?_isSome.2 ⟨request, h, decide_eq_true rfl⟩
  obtain ⟨other, hfind⟩ := Option.isSome_iff_exists.1 hsome
  have hkey := List.find?_some hfind
  exact ⟨other, List.mem_of_find?_eq_some hfind, of_decide_eq_true hkey, hfind⟩

/-- The first requests say what belongs to all of them unless two packages share a key. -/
theorem plain_first_iff : (∀ request ∈ requests, (first requests request).plain = request.plain) ↔
    ¬(AsksFor requests .ofPrimitives ∧ AsksFor requests ⟨PackageTable.primitiveKey, false⟩) := by
  constructor
  · rintro hplain ⟨⟨named, hmem, hnamed⟩, other, hother, hpackage⟩
    have hkey : (Request.package named).key = (Request.package other).key := by
      rw [key, key, hnamed, hpackage]
      rfl
    obtain ⟨one, -, -, hfind⟩ := exists_first hmem
    have hfirst := hplain _ hmem
    have hsecond := hplain _ hother
    rw [first, hfind, plain, hnamed] at hfirst
    rw [first, ← hkey, hfind, plain, hpackage] at hsecond
    exact absurd (hfirst.symm.trans hsecond) (by decide)
  · intro hapart request hmem
    obtain ⟨other, hother, hkey, hfind⟩ := exists_first hmem
    rw [first, hfind, Option.getD_some]
    by_cases hshared : request.key = sharedKey
    · obtain ⟨named, rfl, hnamed⟩ := plain_of_sharedKey hshared
      obtain ⟨named', rfl, hnamed'⟩ := plain_of_sharedKey (hkey.trans hshared)
      rw [plain, plain]
      rcases hnamed with hnamed | hnamed <;> rcases hnamed' with hnamed' | hnamed'
      · rw [hnamed, hnamed']
      · exact absurd ⟨⟨_, hmem, hnamed⟩, _, hother, hnamed'⟩ hapart
      · exact absurd ⟨⟨_, hother, hnamed'⟩, _, hmem, hnamed⟩ hapart
      · rw [hnamed, hnamed']
    · exact plain_eq_of_key hkey hshared

end Request

namespace Register

/-- Every request is answered by what belongs to the first request of its key. -/
theorem serve_empty (requests : List Request) : (Request.serve answer requests empty).1 =
    requests.map fun request => (Request.first requests request).plain := by
  rw [serve_eq_map]
  refine List.map_congr_left fun request hmem => ?_
  rw [filed_empty, Option.none_or, Request.first]
  cases requests.find? (·.key = request.key) <;> rfl

/-- **Canonical answers, but for two packages.** A register gives the answers that come with the
usual namer, one to each request. An answer tells what the name in its request means, whatever was
requested before, unless it is for the key that two packages share: then it is what belongs to the
first request of that key. So all answers tell what their requests mean if and only if these two
packages are not both requested. And what a request means is one answer. -/
theorem serve_canonical (requests : List Request) :
    let answers := (Request.serve answer requests empty).1
    answers = (Request.serve Namer.shared.answer requests {}).1 ∧
    List.Forall₂ (fun request answer =>
      (request.key ≠ Request.sharedKey → request.Means answer) ∧
      (request.key = Request.sharedKey →
        (requests.find? (·.key = Request.sharedKey)).map Request.plain = some answer))
      requests answers ∧
    (List.Forall₂ Request.Means requests answers ↔
      ¬(Request.AsksFor requests .ofPrimitives ∧
        Request.AsksFor requests ⟨PackageTable.primitiveKey, false⟩)) ∧
    ∀ request answer, Request.Means request answer ↔ answer = request.plain := by
  intro answers
  have hanswers : answers = requests.map fun request => (Request.first requests request).plain :=
    serve_empty requests
  refine ⟨Request.serve_congr (fun h => h.answer _) requests agrees_empty, ?_, ?_,
    fun _ _ => Request.means_iff⟩
  · rw [hanswers, List.forall₂_map_right_iff, List.forall₂_same]
    intro request hmem
    obtain ⟨other, hother, hkey, hfind⟩ := Request.exists_first hmem
    rw [Request.first, hfind, Option.getD_some]
    refine ⟨fun hshared => Request.means_iff.2 (Request.plain_eq_of_key hkey hshared),
      fun hshared => ?_⟩
    rw [← hshared, hfind, Option.map_some]
  · rw [hanswers, List.forall₂_map_right_iff, List.forall₂_same, ← Request.plain_first_iff]
    exact forall₂_congr fun _ _ => Request.means_iff

/-- The package of `=primitive/X` answers the request for the package of `int`, and nothing else:
the first of the two requests has taken the entry. -/
theorem serve_canonical_of_clash :
    let requests : List Request := [.package ⟨"=primitive/X"⟩, .type "La/B;", .package ⟨"I"⟩]
    let answers := (Request.serve answer requests empty).1
    (Request.type "La/B;").key ≠ Request.sharedKey ∧
    (Request.package ⟨"I"⟩).key = Request.sharedKey ∧
    answers = [.package ⟨"=primitive", false⟩, .type ⟨"a/B"⟩, .package ⟨"=primitive", false⟩] ∧
    Request.Means (.type "La/B;") (.type ⟨"a/B"⟩) ∧
    ¬List.Forall₂ Request.Means requests answers := by
  intro requests answers
  obtain ⟨hnamer, hforall, hiff, -⟩ := serve_canonical requests
  have hanswers : answers =
      [.package ⟨"=primitive", false⟩, .type ⟨"a/B"⟩, .package ⟨"=primitive", false⟩] :=
    hnamer.trans (by decide +kernel)
  have hkey : (Request.type "La/B;").key ≠ Request.sharedKey := by decide +kernel
  refine ⟨hkey, by decide +kernel, hanswers, ?_, fun hmeans => ?_⟩
  · change List.Forall₂ _ requests answers at hforall
    rw [hanswers] at hforall
    have hsecond := (List.forall₂_cons.1 (List.forall₂_cons.1 hforall).2).1
    exact hsecond.1 hkey
  · refine hiff.1 hmeans ⟨⟨⟨"I"⟩, ?_, ?_⟩, ⟨⟨"=primitive/X"⟩, ?_, ?_⟩⟩
    all_goals decide +kernel

/-- There are requests that a register does not answer by what they mean, such as these two in a
row. -/
theorem serve_differs_of_clash : ¬∀ requests : List Request,
    List.Forall₂ Request.Means requests (Request.serve answer requests empty).1 := by
  intro h
  have hclash := h [.package ⟨"=primitive/X"⟩, .package ⟨"I"⟩]
  rw [serve_empty, List.forall₂_map_right_iff, List.forall₂_same] at hclash
  have hint := Request.means_iff.1 (hclash (.package ⟨"I"⟩) (by simp))
  exact absurd hint (by decide +kernel)

end Register

end ClassFile
