import ClassFile.Proofs.Names
import ClassFile.Proofs.Provenance

/-!
# References and imports of a record

When a class file has been decoded, its imports are the packages of its references, no more and
no less, and none of them is the package of the primitive types
(`ClassFile.Session.decode_imports`).

No reference is primitive. An array is not referred to either, but its innermost element is, and
there is one way in which that goes wrong: of the element of an array two enclosures `L…;` are
taken off, and what comes out may be another array. A descriptor cannot name such a type, for it
has a semicolon inside; a class constant or a string constant can
(`ClassFile.Session.run_references`).
-/

namespace ClassFile

/-! ### Imports -/

namespace Decoder.Collected

/-- The types that were referred to and the packages that were imported go together. -/
structure Filed (namer : Namer) (found : Collected) : Prop where
  imported : ∀ type ∈ found.references, ∃ package ∈ found.imports,
    namer.Settled found.session.table type package
  needed : ∀ package ∈ found.imports, package.primitive = false ∧
    ∃ type ∈ found.references, namer.Settled found.session.table type package

namespace Filed

variable {namer : Namer} {found : Collected}

/-- It does not matter what is exposed, or which packages are asked for. -/
theorem later (h : found.Filed namer) {other : Collected}
    (htable : namer.Reaches found.session.table other.session.table)
    (hreferences : other.references = found.references)
    (himports : other.imports = found.imports) : other.Filed namer where
  imported type htype := by
    rw [hreferences] at htype
    obtain ⟨package, hpackage, hsettled⟩ := h.imported type htype
    exact ⟨package, himports ▸ hpackage, hsettled.mono htable⟩
  needed package hpackage := by
    rw [himports] at hpackage
    obtain ⟨hordinary, type, htype, hsettled⟩ := h.needed package hpackage
    exact ⟨hordinary, type, hreferences ▸ htype, hsettled.mono htable⟩

theorem refer (hsteady : namer.Steady) (h : found.Filed namer) (type : TypeName)
    (access : Access) : (found.refer namer type access).Filed namer := by
  by_cases htakes : found.Takes namer type
  · have hlater (other : TypeName) (package : Package)
        (hsettled : namer.Settled found.session.table other package) :=
      hsettled.mono (reaches_refer type access found)
    have hnew := hsteady type.referent found.session.table
    rw [refer_of_takes htakes] at hlater ⊢
    refine ⟨fun other hother => ?_, fun package hpackage => ?_⟩
    · rcases Std.ExtTreeSet.mem_insert.1 hother with hsame | hother
      · obtain rfl := Std.LawfulEqOrd.eq_of_compare hsame
        exact ⟨_, Std.ExtTreeSet.mem_insert_self, hnew⟩
      · obtain ⟨package, hpackage, hsettled⟩ := h.imported other hother
        exact ⟨package, Std.ExtTreeSet.mem_insert.2 (.inr hpackage), hlater _ _ hsettled⟩
    · rcases Std.ExtTreeSet.mem_insert.1 hpackage with hsame | hpackage
      · obtain rfl := Std.LawfulEqOrd.eq_of_compare hsame
        exact ⟨htakes.2, _, Std.ExtTreeSet.mem_insert_self, hnew⟩
      · obtain ⟨hordinary, other, hother, hsettled⟩ := h.needed package hpackage
        exact ⟨hordinary, other, Std.ExtTreeSet.mem_insert.2 (.inr hother), hlater _ _ hsettled⟩
  · rcases refer_of_not_takes htakes access with hsame | hasked
    · rw [hsame]
      exact h
    · rw [hasked]
      exact h.later (.ask _ (.refl _)) rfl rfl

/-- References and imports go together as long as a class is decoded. -/
theorem kept (hsteady : namer.Steady) (pool : Pool) :
    KeptExposed ⟨namer, none⟩ pool True (Filed namer) where
  refer access _ h := h.refer hsteady _ access
  told _ h := h
  opened _ h := h.later (.refl _) rfl rfl
  expose type access h := h.later (reaches_expose type access _)
    (references_expose type access _) (imports_expose type access _)

end Filed

end Decoder.Collected

/-- **The imports of a class are the packages of its references**, whenever a steady namer is asked
for them afterwards, and the package of the primitive types is not among them. -/
theorem Session.decode_imports {options : Options} (hsteady : options.namer.Steady)
    {bytes : Bytes} {session after : Session} {record : Record}
    (h : session.decode options bytes = (.ok record, after)) :
    (∀ package ∈ record.imports, package.primitive = false) ∧
      ∀ later, options.namer.Reaches after.table later → ∀ package,
        package ∈ record.imports ↔
          ∃ type ∈ record.references, (options.namer.packageOf type later).1 = package := by
  obtain ⟨s, hrun, rfl⟩ := decode_eq_ok_iff_classFile.1 h
  obtain ⟨_, _, -, -, ⟨hreferences, himports, -⟩, hcollects⟩ := Decode.classFile_collects hrun
  have hfiled : s.collected.Filed options.namer :=
    hcollects _ (Decoder.Collected.Filed.kept hsteady _)
      ⟨fun _ h => absurd h Std.ExtTreeSet.not_mem_empty,
        fun _ h => absurd h Std.ExtTreeSet.not_mem_empty⟩
  rw [hreferences, himports]
  refine ⟨fun package hpackage => (hfiled.needed package hpackage).1,
    fun later hlater package => ?_⟩
  constructor
  · intro hpackage
    obtain ⟨-, type, htype, hsettled⟩ := hfiled.needed package hpackage
    exact ⟨type, htype, hsettled later hlater⟩
  · rintro ⟨type, htype, rfl⟩
    obtain ⟨package, hpackage, hsettled⟩ := hfiled.imported type htype
    rw [hsettled later hlater]
    exact hpackage

/-- A public class `A` with a public field of the class `a/B`: it imports the package `a` and the
package without a name. -/
theorem Session.decode_imports_of_field :
    let file : Bytes := [0xCA, 0xFE, 0xBA, 0xBE, 0, 0, 0, 52, 0, 5, 1, 0, 1, 65, 7, 0, 1,
      1, 0, 1, 102, 1, 0, 5, 76, 97, 47, 66, 59, 0, 0x21, 0, 2, 0, 0, 0, 0,
      0, 1, 0, 1, 0, 3, 0, 4, 0, 0, 0, 0, 0, 0]
    ∃ record after, Session.decode {} file {} = (.ok record, after) ∧
      record.imports.toList = [⟨"", false⟩, ⟨"a", false⟩] ∧
      (∀ package ∈ record.imports, package.primitive = false) ∧
      ∀ later, Namer.shared.Reaches after.table later → ∀ package,
        package ∈ record.imports ↔
          ∃ type ∈ record.references, (Namer.shared.packageOf type later).1 = package := by
  intro file
  have himports : (Session.decode {} file {}).1.toOption.map (·.imports.toList) =
      some [⟨"", false⟩, ⟨"a", false⟩] := by decide +kernel
  obtain ⟨record, after, hrun, himports⟩ := Session.decode_of_map himports
  exact ⟨record, after, hrun, himports,
    @Session.decode_imports {} Namer.shared_steady file {} after record hrun⟩

/-! ### References -/

namespace Decoder.Collected

/-- Whatever was referred to is no primitive type, and is what some type refers to that the pool
names. -/
def Traced (pool : Pool) (walks : Prop) (found : Collected) : Prop :=
  ∀ type ∈ found.references, type.isPrimitive = false ∧
    ∃ named, pool.Names walks named ∧ named.referent = type

theorem Traced.kept (c : Context) (pool : Pool) (walks : Prop) :
    KeptExposed c pool walks (Traced pool walks) where
  refer {found type} access hnames h := by
    by_cases htakes : found.Takes c.namer type
    · rw [refer_of_takes htakes]
      intro other hother
      rcases Std.ExtTreeSet.mem_insert.1 hother with hsame | hother
      · obtain rfl := Std.LawfulEqOrd.eq_of_compare hsame
        exact ⟨htakes.1, type, hnames, rfl⟩
      · exact h other hother
    · rcases refer_of_not_takes htakes access with hsame | hasked
      · rw [hsame]
        exact h
      · rw [hasked]
        exact h
  told {s} event h := by
    rw [Decoder.told]
    cases c.listener <;> exact h
  opened _ h := h
  expose {found} type access h := by
    rw [Traced, references_expose]
    exact h

end Decoder.Collected

/-- **No reference is a primitive type**, whether or not bodies are walked through, and whoever
listens. **Nor is it an array**, unless a class constant or a string constant of the pool names an
array that wraps another array, and that is what was referred to. -/
theorem Session.run_references {options : Options} {listener : Option Listener} {bytes : Bytes}
    {session : Session} {record : Record}
    (h : (session.run options listener bytes).outcome = .ok (some record)) :
    ∃ raw rest, RawHeader.form.Fits raw ∧ bytes = RawHeader.form.encode raw ++ rest ∧
      ∀ type ∈ record.references, type.isPrimitive = false ∧
        (type.isArray = true → ∃ (index : UInt16) (text : String) (named : TypeName),
          (raw.constants.className index = .ok text ∧ named = .ofText text ∨
            raw.constants.stringConstant index = some text ∧ named = .ofDotted text) ∧
          named.WrapsArray ∧ type = named.referent) := by
  obtain ⟨s, hrun, -⟩ := classFile_of_run h
  obtain ⟨raw, rest, hfits, hbytes, ⟨hreferences, -, -⟩, hcollects⟩ :=
    Decode.classFile_collects hrun
  have htraced := hcollects _ (Decoder.Collected.Traced.kept _ _ True)
    fun _ h => absurd h Std.ExtTreeSet.not_mem_empty
  refine ⟨raw, rest, hfits, hbytes, fun type htype => ?_⟩
  rw [hreferences] at htype
  obtain ⟨hprimitive, named, hnames, rfl⟩ := htraced type htype
  refine ⟨hprimitive, fun harray => ?_⟩
  have hwraps := (TypeName.isArray_referent_iff named).1 harray
  cases hnames with
  | @constant index text htext => exact ⟨index, text, _, .inl ⟨htext, rfl⟩, hwraps, rfl⟩
  | @string index text _ htext => exact ⟨index, text, _, .inr ⟨htext, rfl⟩, hwraps, rfl⟩
  | descriptor htext hname =>
    exact absurd harray (ne_true_of_eq_false (TypeName.isArray_referent_of_mem_names hname))

/-- A public class `A` that calls `clone` on an array of classes `[La/B;`, as its pool has it. -/
def cloneOfWrapped : Bytes :=
  [0xCA, 0xFE, 0xBA, 0xBE, 0, 0, 0, 52, 0, 9, 1, 0, 1, 65, 7, 0, 1,
    1, 0, 9, 91, 76, 91, 76, 97, 47, 66, 59, 59, 7, 0, 3, 1, 0, 5, 99, 108, 111, 110, 101,
    1, 0, 20, 40, 41, 76, 106, 97, 118, 97, 47, 108, 97, 110, 103, 47, 79, 98, 106, 101, 99, 116,
    59, 12, 0, 5, 0, 6, 10, 0, 4, 0, 7, 0, 0x21, 0, 2, 0, 0, 0, 0, 0, 0, 0, 0, 0, 0]

/-- A class constant of the file names an array that wraps another, and the file is accepted. What
it refers to is not primitive, and the one array among it comes out of that constant. -/
theorem Session.run_references_of_wrapped :
    ∃ record, (Session.run {} none cloneOfWrapped {}).outcome = .ok (some record) ∧
      ∃ raw rest, RawHeader.form.Fits raw ∧
        cloneOfWrapped = RawHeader.form.encode raw ++ rest ∧
        ∀ type ∈ record.references, type.isPrimitive = false ∧
          (type.isArray = true → ∃ (index : UInt16) (text : String) (named : TypeName),
            (raw.constants.className index = .ok text ∧ named = .ofText text ∨
              raw.constants.stringConstant index = some text ∧ named = .ofDotted text) ∧
            named.WrapsArray ∧ type = named.referent) := by
  have hok : ((Session.run {} none cloneOfWrapped {}).outcome.toOption.bind id).isSome = true := by
    decide +kernel
  obtain ⟨record, hrecord⟩ := Option.isSome_iff_exists.1 hok
  have hrun : (Session.run {} none cloneOfWrapped {}).outcome = .ok (some record) := by
    generalize (Session.run {} none cloneOfWrapped {}).outcome = outcome at hrecord
    match outcome, hrecord with
    | .ok (some _), rfl => rfl
  exact ⟨record, hrun, Session.run_references hrun⟩

/-- The array `[La/B;` comes out of the enclosure, and is referred to as it is: its own element is
not looked for again. -/
theorem Session.references_of_wrapped :
    ((Session.references {} cloneOfWrapped {}).1.map Std.ExtTreeSet.toList).toOption =
        some [⟨"A"⟩, ⟨"[La/B;"⟩, ⟨"java/lang/Object"⟩] ∧
      TypeName.isArray ⟨"[La/B;"⟩ = true := by
  decide +kernel

end ClassFile
