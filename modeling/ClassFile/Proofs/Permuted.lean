import ClassFile.Proofs.SwappedMembers

/-!
# The order of members

A class with the same fields and methods in another order is accepted if the class is, and what its
record says is the same, in that order (`ClassFile.Session.decode_permuted`). What members put on
record of their class is excluded here: there the last one counts, or entries are listed in the
order of the file.

Members share what decides about later ones, and still it does not matter which is first: a field
says that bodies are walked through before there are any methods, and a class constant that is
referred to once is so whichever member meets it. There is one exception, the entry that the
primitive package shares with another one in the table of packages: which of them it is depends on
who asks first.
-/

namespace ClassFile

/-! ### Decodings that have found the same -/

/-- Since they had gathered that, both decodings have found the same. -/
def Decoder.Gathered.Level (namer : Namer) (start found other : Gathered) : Prop :=
  ∃ isPublic, Balanced namer start isPublic (fun _ => False) (fun _ => False) found other

namespace Decoder.Gathered.Level

variable {namer : Namer} {start found other : Gathered}

theorem refl (h : Comes namer start found) : Level namer start found found :=
  ⟨_, h, h, rfl, rfl, fun _ _ => .rfl⟩

theorem tandem (hstart : ∀ index, ¬start.pool.Marked index) :
    Tandem namer start.pool (Level namer start) where
  left h := h.elim fun _ h => h.left.like
  right h := h.elim fun _ h => h.right.like
  both op h := h.elim fun isPublic h => ⟨isPublic, (Balanced.tandem hstart isPublic _ _).both op h⟩

theorem finds (h : Level namer start found other) (find : Find)
    (hfixed : find.Fixed namer start.collected.session.table) :
    other.collected.Finds find ↔ found.collected.Finds find := by
  obtain ⟨_, hbalanced⟩ := h
  have hfinds := hbalanced.finds find hfixed
  rw [false_or, false_or] at hfinds
  exact hfinds.symm

end Decoder.Gathered.Level

/-- The records have the same backdrop and the same traits. -/
abbrev Record.Level : TypeName → Record → Record → Prop :=
  Record.Balanced (fun _ => False) fun _ => False

namespace Record.Level

variable {name : TypeName} {record other : Record}

theorem refl (record : Record) : Record.Level record.name record record :=
  ⟨rfl, rfl, fun _ => .rfl⟩

/-- They say the same, but for their members and what is put in when the decoding ends. -/
theorem eq (h : Record.Level name record other) :
    { other with
      fields := record.fields
      methods := record.methods
      references := record.references
      imports := record.imports
      api := record.api } = record := by
  have hhas (trait : Trait) : other.Has trait ↔ record.Has trait := by
    have hbalanced := h.has trait
    rw [false_or, false_or] at hbalanced
    exact hbalanced.symm
  have htypes : other.annotationTypes = record.annotationTypes :=
    Std.ExtTreeSet.ext_mem fun type => hhas (.annotated type)
  have hruntime : other.runtimeAnnotations = record.runtimeAnnotations :=
    Bool.eq_iff_iff.2 (hhas (.retained .runtime))
  have hcompiled : other.compiledAnnotations = record.compiledAnnotations :=
    Bool.eq_iff_iff.2 (hhas (.retained .compiled))
  have hconstructor : other.defaultConstructor = record.defaultConstructor :=
    Bool.eq_iff_iff.2 (hhas .constructed)
  -- what a record says is its backdrop, with its traits, its members and what is put in at the end
  let put (backdrop : Record) : Record :=
    { backdrop with
      annotationTypes := record.annotationTypes
      runtimeAnnotations := record.runtimeAnnotations
      compiledAnnotations := record.compiledAnnotations
      defaultConstructor := record.defaultConstructor
      fields := record.fields
      methods := record.methods
      references := record.references
      imports := record.imports
      api := record.api }
  have hput : put other.backdrop = put record.backdrop := congrArg put h.backdrop.symm
  rw [htypes, hruntime, hcompiled, hconstructor]
  exact hput

end Record.Level

/-! ### Lists of members -/

namespace Decode

open Decoder

variable {namer : Namer} {start : Gathered} {name : TypeName}
  {targets : Targets} {kind : LastMember}

/-- **Two lists of the same plain members** are gone through alike. -/
theorem members_perm (hstart : ∀ index, ¬start.pool.Marked index) {raws raws' : List RawMember}
    (h : raws.Perm raws') (hplain : ∀ raw ∈ raws, raw.Plain start.pool)
    (hfits : ∀ raw ∈ raws, RawMember.form.Fits raw) :
    Follows Eq (InStep (Gathered.Level namer start) Record.Level name
        (Attention.Turned Eq targets kind))
      (raws.forM (memberOf ⟨namer, none⟩ kind)) (raws'.forM (memberOf ⟨namer, none⟩ kind)) := by
  intro s t _ s' hst hrun
  obtain ⟨isPublic, hgathered⟩ := hst.gathered
  let place : Place :=
    ⟨start, isPublic, name, s.record.map Record.backdrop, kind, s.walking, targets, s.input⟩
  have hbalancing : s.Balancing namer place (fun _ => False) (fun _ => False) t := by
    refine ⟨⟨hgathered, hst.record, ⟨?_, fun _ => ⟨rfl, hst.attention.1.symm⟩⟩, hst.attention.2⟩,
      hst.input⟩
    rw [hst.attention.1]
  have hmembers : Follows Eq (Level namer place) (raws.forM (memberOf ⟨namer, none⟩ kind))
      (raws'.forM (memberOf ⟨namer, none⟩ kind)) := members_permuted hstart h hplain hfits
  obtain ⟨_, t', hrun', rfl, hlevel⟩ := hmembers (hbalancing.balanced rfl rfl) hrun
  obtain ⟨⟨hgathered', hrecord', ⟨hwalks, -⟩, htargets⟩, hinput'⟩ := hlevel.balancing
  rw [false_or, false_or] at hwalks
  exact ⟨_, t', hrun', rfl, ⟨⟨_, hgathered'⟩, hrecord', Bool.eq_iff_iff.2 hwalks, htargets⟩,
    hinput'⟩

end Decode

/-! ### Classes -/

/-- The class has the same members in another order. -/
structure Layout.Permutes (layout layout' : Layout) : Prop where
  header : layout'.toRawHeader = layout.toRawHeader
  superclass : layout'.superclass = layout.superclass
  interfaces : layout'.interfaces = layout.interfaces
  members (kind : LastMember) : (layout.members kind).Perm (layout'.members kind)
  attributes : layout'.attributes = layout.attributes

theorem Layout.Permutes.fits {layout layout' : Layout} (h : layout.Permutes layout')
    (hfits : Layout.form.Fits layout) : Layout.form.Fits layout' := by
  obtain ⟨hheader, hinterfaces, hfields, hmethods, hattributes⟩ := hfits
  have hmembers {raws raws' : List RawMember} (hperm : raws.Perm raws')
      (hfits : RawMember.form.table.Fits raws) : RawMember.form.table.Fits raws' :=
    ⟨hperm.length_eq ▸ hfits.1, fun raw hraw => hfits.2 raw (hperm.mem_iff.2 hraw)⟩
  exact ⟨h.header ▸ hheader, h.interfaces ▸ hinterfaces, hmembers (h.members .field) hfields,
    hmembers (h.members .method) hmethods, h.attributes ▸ hattributes⟩

/-- The members of a record are what comes of them when they are read by themselves. -/
theorem Record.Owns.toList_members {layout : Layout} {walking : Bool} {record : Record}
    (h : record.Owns layout walking) (kind : LastMember) (fallback : Member) :
    (record.members kind).toList = (layout.members kind).map fun raw =>
      (raw.alone kind layout.constants walking).getD fallback := by
  have hall := h kind
  generalize layout.members kind = raws at hall
  generalize (record.members kind).toList = members at hall
  induction hall with
  | nil => rfl
  | cons hfirst _ ih => rw [List.map_cons, ← ih, hfirst, Option.getD_some]

/-- The other record says what this one says, but for the members. As for references, imports and
exposed packages, this leaves out those of which it depends on the table of packages for which types
they are handed out. -/
structure Record.Restated (namer : Namer) (table : PackageTable) (record other : Record) :
    Prop where
  rest : { other with
    fields := record.fields
    methods := record.methods
    references := record.references
    imports := record.imports
    api := record.api } = record
  references (type : TypeName) : namer.Fixes table (namer.packageOf type table).1 →
    (type ∈ other.references ↔ type ∈ record.references)
  imports (package : Package) : namer.Fixes table package →
    (package ∈ other.imports ↔ package ∈ record.imports)
  apiUses (package : Package) : namer.Fixes table package →
    (package ∈ other.apiUses ↔ package ∈ record.apiUses)

/-- **The order of the members does not matter**, if none of them has an attribute that is put on
record of the class: with another order the class is accepted as well, and its record says the same.
What is said of a member is the same, too, and stands where the member does. -/
theorem Session.decode_permuted {options : Options} {bytes : Bytes} {session after : Session}
    {record : Record} (h : session.decode options bytes = (.ok record, after)) :
    (∃ layout trailing, Layout.form.Fits layout ∧ bytes = Layout.form.encode layout ++ trailing) ∧
      ∀ layout trailing, Layout.form.Fits layout → bytes = Layout.form.encode layout ++ trailing →
        layout.Plain → ∀ layout', layout.Permutes layout' → ∃ other after',
          session.decode options (Layout.form.encode layout' ++ trailing) = (.ok other, after') ∧
          record.Restated options.namer session.table other ∧
          ∃ say : LastMember → RawMember → Member, ∀ kind,
            (record.members kind).toList = (layout.members kind).map (say kind) ∧
            (other.members kind).toList = (layout'.members kind).map (say kind) := by
  refine ⟨?_, fun layout trailing hfits hbytes hplain layout' hpermutes => ?_⟩
  · obtain ⟨layout, trailing, hfits, hbytes, -⟩ := decode_eq_ok_iff.1 h
    exact ⟨layout, trailing, hfits, hbytes⟩
  subst hbytes
  obtain ⟨s, hrun, -⟩ := (decode_encode_iff hfits).1 h
  let start : Decoder.Gathered := ⟨layout.constants, (session.decoder options none []).collected⟩
  have hstart := layout.toRawHeader.unmarked_constants
  have htandem : Decoder.Gathered.Tandem options.namer layout.constants
      (Decoder.Gathered.Level options.namer start) :=
    @Decoder.Gathered.Level.tandem options.namer start hstart
  -- the members gather the same in any order, up to what comes of the table of packages
  obtain ⟨-, name, other, t, hother, hwalking, hsame, hlevel, hgathers, hgathers'⟩ :=
    Decode.classOf_abreast Record.Level.refl layout' (W := Eq) (X := fun _ => Eq)
    (fun _ => htandem) (fun x h => by rw [h]) hpermutes.header hpermutes.superclass
    hpermutes.interfaces
    (fun _ _ _ => Decode.members_perm hstart (hpermutes.members .field) (hplain .field)
      hfits.2.2.1.2)
    (fun _ _ _ => Decode.members_perm hstart (hpermutes.members .method) (hplain .method)
      hfits.2.2.2.1.2)
    (fun _ _ _ a b hlast => hpermutes.attributes ▸
      Decode.attributesOf_abreast htandem hlast fun _ _ _ => Decode.nothing_abreast _ _)
    (fun _ found hopens => .refl hopens.comes) rfl rfl rfl rfl rfl hrun
  refine ⟨other, _, (decode_encode_iff (hpermutes.fits hfits)).2 ⟨t, hother, rfl⟩, ?_, ?_⟩
  · refine ⟨hsame.eq, fun type hfixed => ?_, fun package hfixed => ?_, fun package hfixed => ?_⟩
    · rw [hgathers'.references, hgathers.references]
      exact hlevel.finds (.reference type) hfixed
    · rw [hgathers'.imports, hgathers.imports]
      exact hlevel.finds (.imported package) hfixed
    · rw [hgathers'.mem_apiUses, hgathers.mem_apiUses]
      exact hlevel.finds (.exposed package) hfixed
  · let fallback : Member := .field 0 "" ""
    have howns := (Decode.classOf_owns hfits rfl hrun).2
    have howns' : other.Owns layout' s.walking :=
      hwalking ▸ (Decode.classOf_owns (hpermutes.fits hfits) rfl hother).2
    have hpool : layout'.constants = layout.constants :=
      congrArg RawHeader.constants hpermutes.header
    refine ⟨fun kind raw => (raw.alone kind layout.constants s.walking).getD fallback, fun kind =>
      ⟨howns.toList_members kind fallback, ?_⟩⟩
    rw [← hpool]
    exact howns'.toList_members kind fallback

/-- A public class `A` with a field that has an annotation with the class literal `int`, and with a
field of the type `L=primitive/X;`. -/
def literalBeforeField : Layout where
  minor := 0
  major := 52
  pool := [0, 10, 1, 0, 1, 65, 7, 0, 1, 1, 0, 1, 102, 1, 0, 1, 73, 1, 0, 1, 103, 1, 0, 14, 76, 61,
    112, 114, 105, 109, 105, 116, 105, 118, 101, 47, 88, 59, 1, 0, 3, 76, 75, 59, 1, 0, 1, 118, 1,
    0, 25, 82, 117, 110, 116, 105, 109, 101, 86, 105, 115, 105, 98, 108, 101, 65, 110, 110, 111,
    116, 97, 116, 105, 111, 110, 115]
  access := 0x21
  name := 2
  superclass := 0
  interfaces := []
  fields := [⟨1, 3, 4, [⟨9, [0, 1, 0, 7, 0, 1, 0, 8, 99, 0, 4]⟩]⟩, ⟨1, 5, 6, []⟩]
  methods := []
  attributes := []

/-- The same class with its fields in the other order. -/
def literalBehindOther : Layout :=
  { literalBeforeField with fields := literalBeforeField.fields.reverse }

/-- The class `=primitive/X` is referred to only if its field comes first: then the package
`=primitive` is asked for before the literal asks for the one of the primitive types. -/
theorem literalBeforeField_refers :
    (Session.decode {} (Layout.form.encode literalBeforeField) {}).1.toOption.map
        (·.references.toList) = some [⟨"A"⟩, ⟨"K"⟩] ∧
      (Session.decode {} (Layout.form.encode literalBehindOther) {}).1.toOption.map
        (·.references.toList) = some [⟨"=primitive/X"⟩, ⟨"A"⟩, ⟨"K"⟩] := by
  decide +kernel

theorem literalBeforeField_fits : Layout.form.Fits literalBeforeField := by decide +kernel

/-- Its only attribute has annotations. -/
theorem literalBeforeField_plain : literalBeforeField.Plain := by
  have hname : literalBeforeField.constants.utf8 9 = .ok "RuntimeVisibleAnnotations" := by
    decide +kernel
  have hall : ∀ raw ∈ literalBeforeField.fields, ∀ inner ∈ raw.attributes, inner.name = 9 := by
    decide
  intro kind raw hraw inner hinner
  cases kind with
  | field =>
    refine .of_name ((hall raw hraw inner hinner).symm ▸ hname) (by decide) (by decide)
  | method => exact absurd hraw List.not_mem_nil

theorem literalBeforeField_permutes : literalBeforeField.Permutes literalBehindOther where
  header := rfl
  superclass := rfl
  interfaces := rfl
  members kind := by
    cases kind with
    | field => exact (List.reverse_perm _).symm
    | method => exact .refl _
  attributes := rfl

/-- The class is accepted, and so is the one with its fields in the other order. Their records agree
but for the order of the fields, and for what has to do with packages that the namer does not
fix. -/
theorem Session.decode_permuted_of_literal :
    ∃ record after, Session.decode {} (Layout.form.encode literalBeforeField) {} =
        (.ok record, after) ∧
      (∃ layout trailing, Layout.form.Fits layout ∧
        Layout.form.encode literalBeforeField = Layout.form.encode layout ++ trailing) ∧
      ∃ other after', Session.decode {} (Layout.form.encode literalBehindOther ++ []) {} =
          (.ok other, after') ∧
        record.Restated .shared {} other ∧
        ∃ say : LastMember → RawMember → Member, ∀ kind,
          (record.members kind).toList = (literalBeforeField.members kind).map (say kind) ∧
          (other.members kind).toList = (literalBehindOther.members kind).map (say kind) := by
  obtain ⟨record, after, hrun, -⟩ := Session.decode_of_map literalBeforeField_refers.1
  obtain ⟨hlayout, hpermuted⟩ := @Session.decode_permuted {} _ {} after record hrun
  exact ⟨record, after, hrun, hlayout, hpermuted literalBeforeField [] literalBeforeField_fits
    (List.append_nil _).symm literalBeforeField_plain _ literalBeforeField_permutes⟩

/-- With its fields in the other order it refers to another class: the package of the name that two
packages share goes to the one that is asked for first. -/
theorem Session.decode_permuted_differs_of_literal :
    literalBeforeField.Plain ∧ literalBeforeField.Permutes literalBehindOther ∧
      ∃ record other after after',
        Session.decode {} (Layout.form.encode literalBeforeField) {} = (.ok record, after) ∧
        Session.decode {} (Layout.form.encode literalBehindOther) {} = (.ok other, after') ∧
        ⟨"=primitive/X"⟩ ∉ record.references ∧ ⟨"=primitive/X"⟩ ∈ other.references := by
  obtain ⟨record, after, hrecord, hrefers⟩ := Session.decode_of_map literalBeforeField_refers.1
  obtain ⟨other, after', hother, hrefers'⟩ := Session.decode_of_map literalBeforeField_refers.2
  refine ⟨literalBeforeField_plain, literalBeforeField_permutes, record, other,
    after, after', hrecord, hother, ?_, ?_⟩
  · rw [← Std.ExtTreeSet.mem_toList, hrefers]
    decide
  · rw [← Std.ExtTreeSet.mem_toList, hrefers']
    decide

end ClassFile
