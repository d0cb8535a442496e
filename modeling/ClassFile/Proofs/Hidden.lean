import ClassFile.Proofs.SkippedParts

/-!
# Hidden members

A class without its members that are neither public nor protected is accepted if the class is, and
exposes the same packages (`ClassFile.Session.decode_visible`). What the hidden members mention is
no longer referred to, but nothing of it was exposed.

There is one exception. Packages are handed out from a table, where a package with the name of the
primitive one shares an entry with it: whichever is asked for first is handed out for both. A hidden
field can be the first to ask.
-/

namespace ClassFile

/-- The member cannot be seen from other packages. -/
def RawMember.Hidden (raw : RawMember) : Prop :=
  raw.access.isVisible = false ∧ RawMember.form.Fits raw

/-- The class without the members that cannot be seen from other packages. -/
def Layout.visible (layout : Layout) : Layout :=
  { layout with
    fields := layout.fields.filter (·.access.isVisible)
    methods := layout.methods.filter (·.access.isVisible) }

theorem RawMember.sheds_visible {raws : List RawMember}
    (hfits : ∀ raw ∈ raws, RawMember.form.Fits raw) :
    ClassFile.Sheds RawMember.Hidden Eq raws (raws.filter (·.access.isVisible)) := by
  induction raws with
  | nil => exact .nil
  | cons raw raws ih =>
    obtain ⟨hraw, hraws⟩ := List.forall_mem_cons.1 hfits
    rw [List.filter_cons]
    split
    · exact .keep rfl (ih hraws)
    · rename_i hhidden
      exact .drop ⟨eq_false_of_ne_true hhidden, hraw⟩ (ih hraws)

theorem Layout.fits_visible {layout : Layout} (h : Layout.form.Fits layout) :
    Layout.form.Fits layout.visible := by
  obtain ⟨hheader, hinterfaces, hfields, hmethods, hattributes⟩ := h
  have hvisible {raws : List RawMember} (hfits : RawMember.form.table.Fits raws) :
      RawMember.form.table.Fits (raws.filter (·.access.isVisible)) :=
    @Sheds.table_fits _ RawMember.form _ Eq _ _ (fun _ _ h hfits => h ▸ hfits)
      (RawMember.sheds_visible hfits.2) hfits
  exact ⟨hheader, hinterfaces, hvisible hfields, hvisible hmethods, hattributes⟩

namespace Decode

open Decoder

variable {namer : Namer} {pool : Pool} {G : Gathered → Gathered → Prop} {name : TypeName}

/-- Members are followed without those that are hidden. -/
theorem members_visible (hG : Gathered.Ahead namer (fun _ => True) pool G) {kind : LastMember}
    {targets : Targets} {raws : List RawMember} (hfits : ∀ raw ∈ raws, RawMember.form.Fits raw) :
    Follows Eq (Abreast G name (Attention.Turned WalksAhead targets kind))
      (raws.forM (memberOf ⟨namer, none⟩ kind))
      ((raws.filter (·.access.isVisible)).forM (memberOf ⟨namer, none⟩ kind)) := by
  refine .forM ?_ ?_ (RawMember.sheds_visible hfits)
  · rintro raw ⟨hhidden, hfits⟩
    exact .of_leads (unfed_memberOf _ hfits) fun t => memberOf_alone hG (fun _ _ _ _ => rfl) hhidden
  · rintro raw _ rfl
    exact memberOf_ahead hG fun _ _ _ _ _ _ => trivial

end Decode

/-- **Hidden members expose nothing**: without them the class is accepted as well, and exposes the
same packages, but for those of which it depends on the table for which types they are handed
out. -/
theorem Session.decode_visible {options : Options} {bytes : Bytes} {session after : Session}
    {record : Record} (h : session.decode options bytes = (.ok record, after)) :
    ∃ layout trailing, Layout.form.Fits layout ∧ bytes = Layout.form.encode layout ++ trailing ∧
      ∃ other after', session.decode options (Layout.form.encode layout.visible ++ trailing) =
          (.ok other, after') ∧
        ∀ package, options.namer.Fixes session.table package →
          (package ∈ other.apiUses ↔ package ∈ record.apiUses) := by
  obtain ⟨layout, trailing, hfits, hbytes, s, hrun, rfl⟩ := decode_eq_ok_iff.1 h
  have hahead := Decoder.Gathered.SameApi.ahead options.namer
    ⟨layout.constants, (session.decoder options none []).collected⟩
  have hfields : RawMember.form.table.Fits layout.fields := hfits.2.2.1
  have hmethods : RawMember.form.table.Fits layout.methods := hfits.2.2.2.1
  obtain ⟨_, name, other, t, hother, -, -, hsame, hgathers, hgathers'⟩ :=
    Decode.classOf_abreast Record.Resembles.refl layout.visible (X := fun _ => Decode.WalksAhead)
    (fun _ => hahead.toTandem) Decode.WalksAhead.turn rfl rfl rfl
    (fun _ _ _ => Decode.members_visible hahead hfields.2)
    (fun _ _ _ => Decode.members_visible hahead hmethods.2)
    (fun _ _ _ a b hlast => Decode.attributesOf_abreast hahead.toTandem hlast fun _ _ _ =>
      Decode.nothing_abreast _ _)
    (fun _ found hopens => .refl hopens.comes) rfl rfl rfl rfl id hrun
  refine ⟨layout, trailing, hfits, hbytes, other, _,
    (decode_encode_iff (Layout.fits_visible hfits)).2 ⟨t, hother, rfl⟩, fun package hfixes => ?_⟩
  rw [hgathers'.mem_apiUses, hgathers.mem_apiUses]
  exact (hsame.exposes package hfixes).symm

/-- A public class `A` with a private field of the type `L=primitive/X;`, and with an annotation
that has the class literal `int`. -/
def literalBehindField : Layout where
  minor := 0
  major := 52
  pool := [0, 9, 1, 0, 1, 65, 7, 0, 1, 1, 0, 1, 102, 1, 0, 14, 76, 61, 112, 114, 105, 109, 105, 116,
    105, 118, 101, 47, 88, 59, 1, 0, 3, 76, 66, 59, 1, 0, 1, 118, 1, 0, 1, 73, 1, 0, 25, 82, 117,
    110, 116, 105, 109, 101, 86, 105, 115, 105, 98, 108, 101, 65, 110, 110, 111, 116, 97, 116, 105,
    111, 110, 115]
  access := 0x21
  name := 2
  superclass := 0
  interfaces := []
  fields := [⟨2, 3, 4, []⟩]
  methods := []
  attributes := [⟨8, [0, 1, 0, 5, 0, 1, 0, 6, 99, 0, 7]⟩]

/-- The package `=primitive` is exposed with the field, and not without it: the field asks for that
package before the literal asks for the one of the primitive types. -/
theorem literalBehindField_exposes :
    (Session.decode {} (Layout.form.encode literalBehindField) {}).1.toOption.map
        (·.apiUses.toList) = some [⟨"", false⟩, ⟨"=primitive", false⟩] ∧
      (Session.decode {} (Layout.form.encode literalBehindField.visible) {}).1.toOption.map
        (·.apiUses.toList) = some [⟨"", false⟩] := by
  decide +kernel

/-- The class is accepted. Without the hidden field it exposes the same packages that the usual
namer fixes, which are all but the primitive one and the one of its name. -/
theorem Session.decode_visible_of_literal :
    ∃ record after, Session.decode {} (Layout.form.encode literalBehindField) {} =
        (.ok record, after) ∧
      ∃ layout trailing, Layout.form.Fits layout ∧
        Layout.form.encode literalBehindField = Layout.form.encode layout ++ trailing ∧
        ∃ other after', Session.decode {} (Layout.form.encode layout.visible ++ trailing) {} =
            (.ok other, after') ∧
          (∀ package, Namer.shared.Fixes {} package →
            (package ∈ other.apiUses ↔ package ∈ record.apiUses)) ∧
          ∀ package : Package, package.primitive = false →
            package.binary ≠ PackageTable.primitiveKey →
            (package ∈ other.apiUses ↔ package ∈ record.apiUses) := by
  obtain ⟨record, after, hrun, -⟩ := Session.decode_of_map literalBehindField_exposes.1
  obtain ⟨layout, trailing, hfits, hbytes, other, after', hother, hsame⟩ :=
    @Session.decode_visible {} _ {} after record hrun
  exact ⟨record, after, hrun, layout, trailing, hfits, hbytes, other, after', hother, hsame,
    fun package hordinary hbinary => hsame package (Namer.shared_fixes hordinary hbinary {})⟩

/-- Without the private field it is accepted, too, and does not expose the package `=primitive` any
more: it was the type of the field for which that package was asked for first. -/
theorem Session.decode_visible_differs_of_literal :
    ∃ record other after after',
      Session.decode {} (Layout.form.encode literalBehindField) {} = (.ok record, after) ∧
      Session.decode {} (Layout.form.encode literalBehindField.visible) {} = (.ok other, after') ∧
      ⟨"=primitive", false⟩ ∈ record.apiUses ∧ ⟨"=primitive", false⟩ ∉ other.apiUses := by
  obtain ⟨record, after, hrecord, hexposed⟩ := Session.decode_of_map literalBehindField_exposes.1
  obtain ⟨other, after', hother, hvisible⟩ := Session.decode_of_map literalBehindField_exposes.2
  refine ⟨record, other, after, after', hrecord, hother, ?_, ?_⟩
  · rw [← Std.ExtTreeSet.mem_toList, hexposed]
    decide
  · rw [← Std.ExtTreeSet.mem_toList, hvisible]
    decide

end ClassFile
