import ClassFile.Proofs.Crawling

/-!
# Passing over method bodies

A class constant that no reference to a member names is an *orphan*. An instruction may use it, and
then the class is not referred to unless the body is walked through, so a class with an orphan has
its bodies walked through. If there is no orphan then nothing is lost by passing over them, or
almost nothing (`ClassFile.Session.run_passive_accounts`): all class constants are marked when the
class is opened, and their classes are referred to. What a walk refers to on top is in the bodies
and nowhere else, as the name of a class that is loaded or in an attribute of a body.

The exceptions are types whose package passes for the primitive one. A walk may ask for the ordinary
package of that name before somebody else asks for the primitive one.
-/

namespace ClassFile

/-- The package that is handed out for the type is the primitive one, so the type is not referred
to. -/
def Namer.Withholds (namer : Namer) (table : PackageTable) (type : TypeName) : Prop :=
  (namer.packageOf type table).1.primitive = true

namespace Decode

open Decoder

variable {namer : Namer} {layout : Layout} {s t s' : Decoder} {record : Record}

/-- **What is gathered by walking is accounted for**, if no class constant is an orphan. -/
theorem classOf_accounts (hsteady : namer.Steady)
    (howned : ∀ index name, layout.constants.className index = .ok name →
      layout.constants.Owned index)
    (hinput : s.input = t.input) (hcollected : s.collected = t.collected) (hs : s.record = none)
    (ht : t.record = none) (hwalking : WalksAhead s.walking t.walking)
    (hrun : classOf ⟨namer, none⟩ layout s = .ok record s') :
    ∃ other t', classOf ⟨namer, none⟩ layout t = .ok other t' ∧
      Gathered.Accounts namer (fun type => ∃ name, layout.constants.typeAt layout.name = some name ∧
          layout.Harbours name type) ⟨layout.constants, s.collected⟩ s'.gathered t'.gathered ∧
      record.Gathers s'.gathered ∧ other.Gathers t'.gathered := by
  have hahead := Gathered.Accounts.ahead hsteady (fun type => ∃ name,
    layout.constants.typeAt layout.name = some name ∧ layout.Harbours name type)
    ⟨layout.constants, s.collected⟩
  obtain ⟨_, _, other, t', hother, -, -, hends⟩ :=
    classOf_abreast Record.Resembles.refl layout (W := WalksAhead) (X := fun _ => WalksAhead)
      (fun _ => hahead.toTandem)
      WalksAhead.turn rfl rfl rfl
      (fun _ _ _ => fields_abreast hahead.toTandem fun _ => rfl)
      (fun _ name hname => members_ahead hahead
        fun _ method hmethod raw hraw htext type hharbours =>
        ⟨.ofText name, by rw [Pool.typeAt, hname]; rfl, method, hmethod, raw,
          hraw, htext, hharbours⟩)
      (fun _ _ _ _ _ hlast =>
        attributesOf_abreast hahead.toTandem hlast fun _ _ _ => nothing_abreast _ _)
      (fun _ _ hopens => .refl hopens.comes fun index name hname =>
        hopens.owns index name hname (howned index name hname))
      hinput hcollected hs ht hwalking hrun
  exact ⟨other, t', hother, hends⟩

end Decode

namespace Session

/-- **No class constant is lost by passing over method bodies**, if none is an orphan. Where a class
file is accepted while a listener does nothing, and has all bodies walked through, it is accepted
without the listener. All types that the walk refers to are on the record without it, or they are in
the bodies, as names of classes that are loaded or in attributes; and the classes of all class
constants are on that record. But for types whose package is the primitive one this need not hold,
nor for primitive types. -/
theorem run_passive_accounts {options : Options} (hsteady : options.namer.Steady) {bytes : Bytes}
    {session : Session} {walked : Record}
    (h : (session.run options (some .passive) bytes).outcome = .ok (some walked)) :
    ∃ layout trailing, Layout.form.Fits layout ∧ bytes = Layout.form.encode layout ++ trailing ∧
      ((∀ index name, layout.constants.className index = .ok name →
          layout.constants.Owned index) →
        ∃ record after, session.decode options bytes = (.ok record, after) ∧
          (∀ type ∈ walked.references, type ∈ record.references ∨
            layout.Harbours record.name type ∨ options.namer.Withholds after.table type) ∧
          ∀ index name, layout.constants.className index = .ok name →
            (TypeName.ofText name).referent ∈ record.references ∨
            (TypeName.ofText name).referent.isPrimitive = true ∨
            options.namer.Withholds after.table (TypeName.ofText name).referent) := by
  obtain ⟨layout, trailing, s, hfits, rfl, hwalked⟩ := classOf_of_run_passive h
  refine ⟨layout, trailing, hfits, rfl, fun howned => ?_⟩
  let listening : Decoder := session.decoder options (some .passive) []
  let plain : Decoder := session.decoder options none []
  have hahead : Decode.WalksAhead listening.walking plain.walking :=
    walksAhead_decoder options session
  obtain ⟨record, t, hclass, haccounts, hgathers, hgathers'⟩ := Decode.classOf_accounts
    (s := listening) (t := plain) hsteady howned rfl rfl rfl rfl hahead hwalked
  have hname := (Decode.classOf_record hfits rfl hclass).1.name
  refine ⟨record, _, (decode_encode_iff hfits).2 ⟨t, hclass, rfl⟩, fun type htype => ?_,
    fun index name hindex => ?_⟩
  · rw [hgathers.references] at htype
    rw [hgathers'.references]
    obtain ⟨name', hname', hharbours⟩ | hfound | ⟨-, hprimitive⟩ := haccounts.excess type htype
    · cases hname'.symm.trans hname
      exact .inr (.inl hharbours)
    · exact .inl hfound
    · exact .inr (.inr hprimitive)
  · -- the constant is marked, so its class was met
    rw [hgathers'.references]
    obtain hprimitive | ⟨-, hfound | hprimitive⟩ := haccounts.right.met hsteady
      layout.toRawHeader.unmarked_constants hindex (haccounts.complete_right index name hindex)
    · exact .inr (.inl hprimitive)
    · exact .inl hfound
    · exact .inr (.inr hprimitive)

/-- The class of `ClassFile.Session.literalBehindBody` with a signature that mentions the class
`=primitive.Y`. -/
def literalBehindSignature : Layout :=
  { literalBehindBody with attributes := literalBehindBody.attributes ++ [⟨21, [0, 20]⟩] }

theorem literalBehindSignature_fits : Layout.form.Fits literalBehindSignature := by
  decide +kernel

/-- Both classes of the pool are named by references to methods. -/
theorem literalBehindSignature_owned (index : UInt16) (name : String)
    (h : literalBehindSignature.constants.className index = .ok name) :
    literalBehindSignature.constants.Owned index := by
  have hclasses : (List.range literalBehindSignature.constants.entries.size).filter (fun slot =>
      (literalBehindSignature.constants.className (UInt16.ofNat slot)).toOption.isSome) =
        [2, 8] := by
    decide +kernel
  obtain ⟨nameIndex, mark, hentry, -⟩ := Pool.entry_of_className h
  have hindex : index.toNat ∈ [2, 8] := by
    rw [← hclasses, List.mem_filter, UInt16.ofNat_toNat, h]
    exact ⟨List.mem_range.2 (Array.getElem?_eq_some_iff.1 hentry).1, rfl⟩
  simp only [List.mem_cons, List.not_mem_nil, or_false] at hindex
  obtain htwo | height := hindex
  · obtain rfl : index = 2 := UInt16.toNat_inj.1 htwo
    exact ⟨5, .method, 5, by decide +kernel⟩
  · obtain rfl : index = 8 := UInt16.toNat_inj.1 height
    exact ⟨11, .method, 11, by decide +kernel⟩

/-- The class is accepted while a listener does nothing, and all its class constants are named by
something in the pool. What it refers to then it refers to without a listener as well, unless it is
harboured by the body or its package was withheld. -/
theorem run_passive_accounts_of_literal :
    let file := Layout.form.encode literalBehindSignature
    Namer.shared.Steady ∧ ∃ walked,
      (Session.run {} (some .passive) file {}).outcome = .ok (some walked) ∧
      ∃ record after, Session.decode {} file {} = (.ok record, after) ∧
        (∀ type ∈ walked.references, type ∈ record.references ∨
          literalBehindSignature.Harbours record.name type ∨
          Namer.shared.Withholds after.table type) ∧
        ∀ index name, literalBehindSignature.constants.className index = .ok name →
          (TypeName.ofText name).referent ∈ record.references ∨
          (TypeName.ofText name).referent.isPrimitive = true ∨
          Namer.shared.Withholds after.table (TypeName.ofText name).referent := by
  intro file
  refine ⟨Namer.shared_steady, ?_⟩
  have hok : ((Session.run {} (some .passive) file {}).outcome.toOption.bind id).map (fun _ => ()) =
      some () := by
    decide +kernel
  obtain ⟨walked, hrun, -⟩ := outcome_of_map hok
  obtain ⟨layout, trailing, hfits, hfile, hends⟩ :=
    @run_passive_accounts {} Namer.shared_steady _ {} _ hrun
  have hfile : Layout.form.encode literalBehindSignature ++ [] =
      Layout.form.encode layout ++ trailing := by
    rw [List.append_nil]
    exact hfile
  obtain ⟨rfl, rfl⟩ := Form.Distinct.layout literalBehindSignature_fits hfits hfile
  exact ⟨walked, hrun, hends literalBehindSignature_owned⟩

/-- The class `=primitive.Y` is referred to with the walk, and not without it, though the body does
not come to it: the walk asks for its package before the literal asks for the one of the primitive
types. -/
theorem run_passive_refers_of_literal :
    let file := Layout.form.encode literalBehindSignature
    ((Session.run {} (some .passive) file {}).outcome.toOption.bind id).map (fun record =>
        record.references.toList.map TypeName.binary) =
        some ["=primitive/X", "=primitive/Y", "A", "java/lang/Class", "java/lang/String"] ∧
      (Session.decode {} file {}).1.toOption.map (fun record =>
        record.references.toList.map TypeName.binary) =
        some ["A", "java/lang/Class", "java/lang/String"] := by
  decide +kernel

end Session

end ClassFile
