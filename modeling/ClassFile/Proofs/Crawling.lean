import ClassFile.Proofs.SkippedParts
import ClassFile.Proofs.Names
import ClassFile.Proofs.Transparency

/-!
# Walking through bodies for a listener

A listener can have all method bodies walked through. Without one, a body is passed over unless
something in the class calls for a walk. A class file that is accepted while a listener does nothing
is accepted without it, too. The types, the packages and the annotations that are on record without
it are on record with it, and what can be seen from outside is the same, for nothing in a body can
be seen (`ClassFile.Session.run_passive_includes`).

If there is an orphan among the class constants, both decodings walk, and there is nothing to
compare. If there is none then all class constants are marked when the class is opened. A walk meets
none of them for the first time, and what else it refers to does no harm when it is referred to
(`ClassFile.RawAttribute.Harbours.harmless`).
-/

namespace ClassFile

/-! ### Types in bodies -/

variable {pool : Pool} {type : TypeName}

/-- A class that is spelled out is no array, so its package is an ordinary one or it passes for a
primitive type. -/
theorem Pool.Spells.harmless {index : UInt16} (h : pool.Spells index type) :
    pool.Harmless type := by
  obtain ⟨_, name, -, hname, rfl⟩ := h
  have hsame :=
    Package.primitive_ofType_of_not_isArray (TypeName.isArray_referent_of_mem_names hname)
  by_cases hprimitive : (TypeName.ofText name).referent.isPrimitive = true
  · exact .inl hprimitive
  · exact .inr (.inl (hsame.trans (eq_false_of_ne_true hprimitive)))

theorem AttributeKind.Mentions.harmless {kind : AttributeKind} {body : Bytes}
    (h : kind.Mentions pool type body) : pool.Harmless type := by
  cases h with
  | annotation _ hspells | signature _ hspells => exact hspells.harmless
  | exceptions _ _ _ hname hsame => exact .inr (.inr ⟨_, _, hname, hsame⟩)

namespace Handlers

variable {text : String}

/-- A class that is loaded by name is in some package. -/
theorem slash_of_namesClass (h : namesClass text = true) :
    '/' ∈ (TypeName.ofDotted text).referent.binary.toList := by
  have hdot : '.' ∈ text.toList := by
    rw [namesClass, Bool.and_eq_true, List.contains_iff_mem] at h
    exact h.1
  have hslash : '/' ∈ (TypeName.slashed text).toList := by
    rw [TypeName.slashed, String.toList_ofList]
    exact List.mem_map.2 ⟨'.', hdot, rfl⟩
  exact TypeName.slash_mem_referent (TypeName.slash_mem_ofText hslash)

/-- So what is loaded by name is no primitive type. -/
theorem isPrimitive_of_namesClass (h : namesClass text = true) :
    (TypeName.ofDotted text).referent.isPrimitive = false :=
  TypeName.isPrimitiveLetter_of_slash (slash_of_namesClass h)

/-- And its package is an ordinary one, since its name was checked to be that of a class. -/
theorem ordinary_of_namesClass (h : namesClass text = true) :
    (Package.ofType (TypeName.ofDotted text).referent).primitive = false :=
  Package.ordinary_of_slash (slash_of_namesClass h)

end Handlers

/-- **A walk asks for nothing that does harm.** What it comes to are classes that are loaded by
name, and what the attributes of a body mention; none of these is asked for in place of the
primitive package. -/
theorem RawAttribute.Harbours.harmless {raw : RawAttribute} {targets : Targets}
    (h : raw.Harbours pool targets type) : pool.Harmless type := by
  obtain ⟨_, _, -, -, ⟨_, -, hnames, rfl⟩ | ⟨_, -, _, -, hmentions⟩⟩ := h
  · exact .inr (.inl (Handlers.ordinary_of_namesClass hnames))
  · exact hmentions.harmless

/-! ### The two decodings -/

namespace Decode

open Decoder

variable {namer : Namer} {layout : Layout} {s t s' : Decoder} {record : Record}

/-- How two decodings of a class that is open are related, if the first one walks ahead: if there is
an orphan they are the same, and otherwise the first one includes the second one. -/
def Overtakes (namer : Namer) (L : PackageTable → PackageTable → Prop) (start : Gathered) :
    Bool → Gathered → Gathered → Prop
  | true => fun found other => found = other ∧ Gathered.Comes namer start found
  | false => Gathered.Includes namer L start

/-- **What is gathered without walking is gathered with it.** -/
theorem classOf_includes (hsteady : namer.Steady) (hgenerous : namer.Generous)
    (hinput : s.input = t.input) (hcollected : s.collected = t.collected) (hs : s.record = none)
    (ht : t.record = none) (hwalking : WalksAhead s.walking t.walking)
    (hrun : classOf ⟨namer, none⟩ layout s = .ok record s') :
    ∃ other t', classOf ⟨namer, none⟩ layout t = .ok other t' ∧
      (∀ type ∈ other.references, type ∈ record.references) ∧
      (∀ package ∈ other.imports, package ∈ record.imports) ∧
      ∀ type ∈ other.annotationTypes, type ∈ record.annotationTypes := by
  obtain ⟨L, hfavours⟩ := hgenerous
  let start : Gathered := ⟨layout.constants, s.collected⟩
  have hahead : Gathered.Ahead namer layout.constants.Harmless layout.constants
      (Gathered.Includes namer L start) :=
    @Gathered.Includes.ahead namer L start hsteady hfavours layout.toRawHeader.unmarked_constants
  have hsame := Gathered.Comes.tandem namer start
  -- with an orphan both decodings walk, so nothing sets them apart
  have hboth (orphan : Bool) :
      Gathered.Tandem namer layout.constants (Overtakes namer L start orphan) := by
    cases orphan with
    | true => exact hsame
    | false => exact hahead.toTandem
  obtain ⟨orphan, name, other, t', hother, -, hresembles, hends, hgathers, hgathers'⟩ :=
    classOf_abreast Record.Resembles.refl layout (W := WalksAhead)
      (X := fun orphan => if orphan then Eq else WalksAhead)
      hboth (fun {orphan _ _} more hwalks => by
        cases orphan with
        | true => rw [if_pos rfl, Bool.or_true, Bool.or_true]
        | false => exact hwalks.turn more)
      rfl rfl rfl (fun orphan _ _ => fields_abreast (hboth orphan) fun _ => rfl)
      (fun orphan _ _ => by
        cases orphan with
        | true => exact methods_abreast hsame
        | false => exact members_ahead hahead fun _ _ _ _ _ _ _ hharbours => hharbours.harmless)
      (fun orphan _ _ _ _ hlast =>
        attributesOf_abreast (hboth orphan) hlast fun _ _ _ => nothing_abreast _ _)
      (fun orphan found hopens => by
        cases orphan with
        | true => exact ⟨rfl, hopens.comes⟩
        | false => exact .refl hfavours hopens.comes (hopens.complete rfl))
      hinput hcollected hs ht hwalking hrun
  refine ⟨other, t', hother, ?_, ?_, hresembles.annotationTypes⟩
  · rw [hgathers.references, hgathers'.references]
    cases orphan with
    | true => exact hends.1 ▸ fun _ => id
    | false => exact hends.collected.references
  · rw [hgathers.imports, hgathers'.imports]
    cases orphan with
    | true => exact hends.1 ▸ fun _ => id
    | false => exact hends.collected.imports

/-- **Nothing is exposed by walking.** The decoding that walks through bodies and the one that does
not expose the same packages, as far as the namer hands these out for the same types at all
times. -/
theorem classOf_exposes (hinput : s.input = t.input) (hcollected : s.collected = t.collected)
    (hs : s.record = none) (ht : t.record = none) (hwalking : WalksAhead s.walking t.walking)
    (hrun : classOf ⟨namer, none⟩ layout s = .ok record s') :
    ∃ other t', classOf ⟨namer, none⟩ layout t = .ok other t' ∧
      ∀ package, namer.Fixes s.session.table package →
        (package ∈ record.apiUses ↔ package ∈ other.apiUses) := by
  have hahead := Gathered.SameApi.ahead namer ⟨layout.constants, s.collected⟩
  obtain ⟨_, _, other, t', hother, -, -, hsame, hgathers, hgathers'⟩ :=
    classOf_abreast Record.Resembles.refl layout (W := WalksAhead) (X := fun _ => WalksAhead)
      (fun _ => hahead.toTandem)
      WalksAhead.turn rfl rfl rfl
      (fun _ _ _ => fields_abreast hahead.toTandem fun _ => rfl)
      (fun _ _ _ => members_ahead hahead fun _ _ _ _ _ _ _ _ => trivial)
      (fun _ _ _ _ _ hlast =>
        attributesOf_abreast hahead.toTandem hlast fun _ _ _ => nothing_abreast _ _)
      (fun _ _ hopens => .refl hopens.comes) hinput hcollected hs ht hwalking hrun
  refine ⟨other, t', hother, fun package hfixes => ?_⟩
  rw [hgathers.mem_apiUses, hgathers'.mem_apiUses]
  exact hsame.exposes package hfixes

end Decode

/-! ### With a listener and without one -/

namespace Session

theorem outcome_of_map {α : Type} {outcome : Except Fault (Option Record)} {f : Record → α} {a : α}
    (h : (outcome.toOption.bind id).map f = some a) :
    ∃ record, outcome = .ok (some record) ∧ f record = a := by
  obtain ⟨record, hrecord, hsame⟩ := Option.map_eq_some_iff.1 h
  obtain ⟨_, hfound, rfl⟩ := Option.bind_eq_some_iff.1 hrecord
  exact ⟨record, Except.eq_ok_of_toOption hfound, hsame⟩

/-- Nobody has bodies walked through who does not listen. -/
theorem walksAhead_decoder (options : Options) (session : Session) :
    Decode.WalksAhead (session.decoder options (some .passive) []).walking
      (session.decoder options none []).walking :=
  fun hwalks => absurd hwalks (by simp [decoder])

/-- A class that is accepted while a listener does nothing is written from a layout, and its record
is what comes of the layout if nobody listens but bodies are walked through as for a listener. -/
theorem classOf_of_run_passive {options : Options} {bytes : Bytes} {session : Session}
    {record : Record}
    (h : (session.run options (some .passive) bytes).outcome = .ok (some record)) :
    ∃ layout trailing s, Layout.form.Fits layout ∧ bytes = Layout.form.encode layout ++ trailing ∧
      Decode.classOf ⟨options.namer, none⟩ layout (session.decoder options (some .passive) []) =
        .ok record s := by
  obtain ⟨u, hrun, -⟩ := classFile_of_run h
  have hstart : (session.decoder options (some .passive) bytes).Unheard
      (session.decoder options (some .passive) bytes) := ⟨rfl, rfl, rfl⟩
  obtain ⟨t, hquiet, -⟩ := Decode.classFile_of_heard hstart hrun
  obtain ⟨layout, trailing, hfits, hbytes, hclass⟩ := Decode.classOf_of_classFile rfl hquiet
  exact ⟨layout, trailing, _, hfits, hbytes, hclass⟩

/-- **To walk through bodies only adds**: a class file that is accepted while a listener does
nothing, and has all bodies walked through, is accepted without the listener. The record without it
has the same header, supertypes and fields, and methods of the same outlines. Its references, its
imports and its types of annotations are all on the record of the walk, and it exposes the same
packages, but for those of which it depends on the table for which types they are handed out. -/
theorem run_passive_includes {options : Options} (hsteady : options.namer.Steady)
    (hgenerous : options.namer.Generous) {bytes : Bytes} {session : Session} {walked : Record}
    (h : (session.run options (some .passive) bytes).outcome = .ok (some walked)) :
    ∃ record after, session.decode options bytes = (.ok record, after) ∧
      (∀ type ∈ record.references, type ∈ walked.references) ∧
      (∀ package ∈ record.imports, package ∈ walked.imports) ∧
      (∀ type ∈ record.annotationTypes, type ∈ walked.annotationTypes) ∧
      (∀ package, options.namer.Fixes session.table package →
        (package ∈ walked.apiUses ↔ package ∈ record.apiUses)) ∧
      walked.Outlines record := by
  obtain ⟨layout, trailing, s, hfits, rfl, hwalked⟩ := classOf_of_run_passive h
  let listening : Decoder := session.decoder options (some .passive) []
  let plain : Decoder := session.decoder options none []
  have hahead : Decode.WalksAhead listening.walking plain.walking :=
    walksAhead_decoder options session
  obtain ⟨record, t, hclass, hreferences, himports, hannotations⟩ :=
    Decode.classOf_includes (s := listening) (t := plain) hsteady hgenerous rfl rfl rfl rfl hahead
      hwalked
  obtain ⟨_, _, hclass', hexposes⟩ :=
    Decode.classOf_exposes (s := listening) (t := plain) rfl rfl rfl rfl hahead hwalked
  cases hclass'.symm.trans hclass
  obtain ⟨hpresents, _, howns⟩ := Decode.classOf_record hfits rfl hwalked
  obtain ⟨hpresents', _, howns'⟩ := Decode.classOf_record hfits rfl hclass
  exact ⟨record, _, (decode_encode_iff hfits).2 ⟨t, hclass, rfl⟩, hreferences,
    himports, hannotations, hexposes, hpresents.outlines howns hpresents' howns'⟩

/-- A public class `A` with a method that loads the class `=primitive.X` by name, and with an
annotation that has the class literal `int`. -/
def literalBehindBody : Layout where
  minor := 0
  major := 52
  pool := [0, 22, 1, 0, 1, 65, 7, 0, 1, 1, 0, 1, 109, 1, 0, 3, 40, 41, 86, 12, 0, 3, 0, 4, 10,
    0, 2, 0, 5, 1, 0, 15, 106, 97, 118, 97, 47, 108, 97, 110, 103, 47, 67, 108, 97, 115, 115, 7,
    0, 7, 1, 0, 7, 102, 111, 114, 78, 97, 109, 101, 1, 0, 37, 40, 76, 106, 97, 118, 97, 47, 108,
    97, 110, 103, 47, 83, 116, 114, 105, 110, 103, 59, 41, 76, 106, 97, 118, 97, 47, 108, 97,
    110, 103, 47, 67, 108, 97, 115, 115, 59, 12, 0, 9, 0, 10, 10, 0, 8, 0, 11, 1, 0, 12, 61,
    112, 114, 105, 109, 105, 116, 105, 118, 101, 46, 88, 8, 0, 13, 1, 0, 4, 67, 111, 100, 101,
    1, 0, 3, 76, 66, 59, 1, 0, 1, 118, 1, 0, 1, 73, 1, 0, 25, 82, 117, 110, 116, 105, 109, 101,
    86, 105, 115, 105, 98, 108, 101, 65, 110, 110, 111, 116, 97, 116, 105, 111, 110, 115, 1, 0,
    14, 76, 61, 112, 114, 105, 109, 105, 116, 105, 118, 101, 47, 89, 59, 1, 0, 9, 83, 105, 103,
    110, 97, 116, 117, 114, 101]
  access := 0x21
  name := 2
  superclass := 0
  interfaces := []
  fields := []
  methods := [⟨1, 3, 4, [⟨15, [0, 1, 0, 1, 0, 0, 0, 6, 18, 14, 184, 0, 12, 177, 0, 0, 0, 0]⟩]⟩]
  attributes := [⟨19, [0, 1, 0, 16, 0, 1, 0, 17, 99, 0, 18]⟩]

/-- The package `=primitive` is exposed with the walk, and not without it: the walk asks for that
package before the literal asks for the one of the primitive types. -/
theorem literalBehindBody_exposes :
    let file := Layout.form.encode literalBehindBody
    ((Session.run {} (some .passive) file {}).outcome.toOption.bind id).map (·.apiUses.toList) =
        some [⟨"", false⟩, ⟨"=primitive", false⟩] ∧
      (Session.decode {} file {}).1.toOption.map (·.apiUses.toList) = some [⟨"", false⟩] := by
  decide +kernel

/-- The class is accepted while a listener does nothing, and what it refers to then includes what it
refers to without one. -/
theorem run_passive_includes_of_literal :
    let file := Layout.form.encode literalBehindBody
    Namer.shared.Steady ∧ Namer.shared.Generous ∧ ∃ walked,
      (Session.run {} (some .passive) file {}).outcome = .ok (some walked) ∧
      ∃ record after, Session.decode {} file {} = (.ok record, after) ∧
        (∀ type ∈ record.references, type ∈ walked.references) ∧
        (∀ package ∈ record.imports, package ∈ walked.imports) ∧
        (∀ type ∈ record.annotationTypes, type ∈ walked.annotationTypes) ∧
        (∀ package, Namer.shared.Fixes {} package →
          (package ∈ walked.apiUses ↔ package ∈ record.apiUses)) ∧
        walked.Outlines record := by
  obtain ⟨walked, hrun, -⟩ := outcome_of_map literalBehindBody_exposes.1
  exact ⟨Namer.shared_steady, Namer.shared_generous, walked, hrun,
    @run_passive_includes {} Namer.shared_steady Namer.shared_generous _ {} _ hrun⟩

/-- What it exposes then is not what it exposes without the listener: the walk asks for the package
of the class that the body loads, and the class literal gets that package afterwards. -/
theorem run_passive_exposes_of_literal :
    let file := Layout.form.encode literalBehindBody
    ∃ walked record after, (Session.run {} (some .passive) file {}).outcome = .ok (some walked) ∧
      Session.decode {} file {} = (.ok record, after) ∧
      ⟨"=primitive", false⟩ ∈ walked.apiUses ∧ ⟨"=primitive", false⟩ ∉ record.apiUses := by
  obtain ⟨walked, hrun, hexposed⟩ := outcome_of_map literalBehindBody_exposes.1
  obtain ⟨record, after, hrecord, hplain⟩ := decode_of_map literalBehindBody_exposes.2
  refine ⟨walked, record, after, hrun, hrecord, ?_, ?_⟩
  · rw [← Std.ExtTreeSet.mem_toList, hexposed]
    decide
  · rw [← Std.ExtTreeSet.mem_toList, hplain]
    decide

end Session

end ClassFile
