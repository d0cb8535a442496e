import ClassFile.Proofs.SkippedParts

/-!
# Annotations that are not visible at run time

Such annotations are put on record, but the types in them are not referred to, whatever values the
annotations have: a class file without some of them, on the class, on members or in method bodies,
is accepted if the class file is, with the same references, the same imports, and the same packages
exposed (`ClassFile.Session.decode_loses_invisible`).
-/

namespace ClassFile

/-- The names of attributes with annotations that are not visible at run time. -/
def AttributeKind.invisibleNames : List String :=
  ["RuntimeInvisibleAnnotations", "RuntimeInvisibleParameterAnnotations",
    "RuntimeInvisibleTypeAnnotations"]

theorem AttributeKind.retention_of_invisible :
    ∀ name ∈ invisibleNames, (ofName name).retention? = some .compiled := by
  decide

/-- The attribute holds annotations that are not visible at run time. -/
def RawAttribute.Invisible (pool : Pool) (raw : RawAttribute) : Prop :=
  ∃ name ∈ AttributeKind.invisibleNames, pool.utf8 raw.name = .ok name

namespace Decode

open Decoder

variable {namer : Namer} {pool : Pool} {G : Gathered → Gathered → Prop} {name : TypeName}
  {V : Attention → Attention → Prop}

/-- Nothing is gathered from annotations that are not visible at run time. -/
theorem attributeBody_invisible {onCode : Decode Unit} {site : Site} {access : Access}
    {kind : AttributeKind} (hkind : kind.retention? = some .compiled) (body : Bytes) (t : Decoder) :
    Passes G name V t (within body (attributeBody ⟨namer, none⟩ onCode site access kind)) := by
  have htype (index : UInt16) :
      Alone G name V t (annotationType ⟨namer, none⟩ .compiled access index) :=
    .bind (.ask fun _ _ _ => trivial) fun _ => .pure _
  have hreading : Reading ⟨namer, none⟩ ⟨namer, none⟩ fun m _ => Alone G name V t m := reading_alone
  have hkeeps : Alone G name V t (attributeBody ⟨namer, none⟩ onCode site access kind) := by
    cases kind with
    | annotations retention =>
      obtain rfl : retention = .compiled := Option.some.inj hkind
      exact hreading.annotations htype fun _ found =>
        hreading.updateRecord (Record.aside_annotation found)
    | parameterAnnotations retention =>
      obtain rfl : retention = .compiled := Option.some.inj hkind
      exact hreading.parameterAnnotations htype
    | typeAnnotations retention =>
      obtain rfl : retention = .compiled := Option.some.inj hkind
      exact hreading.typeAnnotations htype site
    | _ => exact nomatch hkind
  exact (hkeeps.within near_withInput).leads

section Losing

variable (hG : Gathered.Tandem namer pool G) {a b : Attention}
include hG

theorem attributeOf_invisible {onCode : Decode Unit} {site : Site} {access : Access}
    {raw : RawAttribute} (hraw : raw.Invisible pool) (t : Decoder) :
    Passes G name V t (attributeOf ⟨namer, none⟩ onCode site access raw) := by
  obtain ⟨text, hinvisible, htext⟩ := hraw
  intro s _ u hs hrun
  have hname := (Pool.Question.utf8 raw.name).ok_of_like (hG.left hs.gathered).symm htext
  obtain ⟨_, _, hfound, hbody⟩ := EStateM.ok_of_bind hrun
  cases hfound.symm.trans (utf8_of_ok hname)
  exact attributeBody_invisible (AttributeKind.retention_of_invisible text hinvisible) _ _ _ _ _ hs
    hbody

/-- A table of attributes that loses such annotations is followed, if method bodies are. -/
theorem attributesOf_losing (hlast : a.last = b.last) {onCode onCode' : Decode Unit} {site : Site}
    {access : Access} {raws raws' : List RawAttribute}
    (hcode : ∀ raw raw' : RawAttribute, raw.Loses pool (RawAttribute.Invisible pool) raw' →
      Follows Eq (Abreast G name (Attention.Are a b)) (within raw.body onCode)
        (within raw'.body onCode'))
    (h : RawAttribute.TableLoses pool (RawAttribute.Invisible pool) raws raws') :
    Follows Eq (Abreast G name (Attention.Are a b))
      (attributesOf ⟨namer, none⟩ onCode site access raws)
      (attributesOf ⟨namer, none⟩ onCode' site access raws') := by
  refine .forM (fun raw hraw => ?_) (fun raw raw' hraw => ?_) h
  · have hunfed : Unfed .decoder (attributeOf ⟨namer, none⟩ onCode site access raw) :=
      (unfed_ask _).bind fun _ => unfed_within _ _
    exact .of_leads hunfed fun t => attributeOf_invisible hG hraw t
  · cases hraw with
    | same => exact attributeOf_abreast hG hlast fun _ => hcode raw raw (.same raw)
    | inside hname hfits hsheds =>
      refine attributeOf_of_body hG fun text htext => ?_
      obtain rfl : "Code" = text := Except.ok.inj (hname.symm.trans htext)
      exact hcode _ _ (.inside hname hfits hsheds)

/-- Outside of method bodies that are walked through it does not matter what is in them. -/
theorem attributesOf_losing_outside (hlast : a.last = b.last) {site : Site} {access : Access}
    {raws raws' : List RawAttribute}
    (h : RawAttribute.TableLoses pool (RawAttribute.Invisible pool) raws raws') :
    Follows Eq (Abreast G name (Attention.Are a b))
      (attributesOf ⟨namer, none⟩ (pure ()) site access raws)
      (attributesOf ⟨namer, none⟩ (pure ()) site access raws') :=
  attributesOf_losing hG hlast (fun _ _ _ => nothing_abreast _ _) h

/-- A method body that loses such annotations is followed. -/
theorem within_code_losing (hlast : a.last = b.last) (htargets : a.targets = b.targets)
    {raw raw' : RawAttribute} (h : raw.Loses pool (RawAttribute.Invisible pool) raw') :
    Follows Eq (Abreast G name (Attention.Are a b)) (within raw.body (code ⟨namer, none⟩))
      (within raw'.body (code ⟨namer, none⟩)) := by
  cases h with
  | same => exact .of_simulates (.within sameInput_abreast (code_abreast hG hlast htargets))
  | @inside _ code attributes rest _ hfits hsheds =>
    have htable : RawAttribute.TableLoses pool (RawAttribute.Invisible pool) code.attributes
        attributes := hsheds.mono fun _ _ hsame => hsame ▸ .same _
    have hcode : Follows Eq (Abreast G name (Attention.Are a b)) (codeOf ⟨namer, none⟩ code)
        (codeOf ⟨namer, none⟩ { code with attributes }) := by
      refine .look fun s t hst => ?_
      rw [show s.targets = a.targets from congrArg Attention.targets hst.attention.1,
        show t.targets = b.targets from congrArg Attention.targets hst.attention.2, htargets]
      refine .bind (.of_simulates ((lockstep_are hG hlast).walk b.targets code.code)) fun _ => ?_
      refine .bind (.of_simulates ((lockstep_are hG hlast).forM code.handlers fun handler _ =>
        gather_abreast hG (.constant handler.2))) fun _ => ?_
      exact attributesOf_losing_outside hG hlast htable
    exact .within (.code _) .code hfits (RawCode.fits_of_sheds hsheds hfits) hcode rest

/-- A member that loses such annotations is followed by what is left of it: annotations that cannot
be seen refer to nothing. -/
theorem memberOf_losing {kind : LastMember} {targets : Targets} {raw raw' : RawMember}
    (h : raw.Loses pool (RawAttribute.Invisible pool) raw') :
    Follows Eq (Abreast G name (Attention.Turned Eq targets kind)) (memberOf ⟨namer, none⟩ kind raw)
      (memberOf ⟨namer, none⟩ kind raw') := by
  obtain ⟨attributes, hlosing, rfl⟩ := h
  refine memberOf_abreast hG (fun _ => rfl) fun header a b _ hlast hturned => ?_
  cases kind with
  | field => exact attributesOf_losing_outside hG hlast hlosing
  | method =>
    obtain ⟨hwalking, htargets⟩ := hturned
    obtain ⟨hleft, hright⟩ := htargets rfl
    refine .look fun s t hst => ?_
    rw [show s.walking = a.walking from congrArg Attention.walking hst.attention.1,
      show t.walking = b.walking from congrArg Attention.walking hst.attention.2, ← hwalking]
    cases hwalks : a.walking with
    | false => exact attributesOf_losing_outside hG hlast hlosing
    | true =>
      have hsame := (hleft hwalks).trans (hright (hwalking ▸ hwalks)).symm
      exact attributesOf_losing hG hlast (fun _ _ h => within_code_losing hG hlast hsame h) hlosing

/-- So are the members of a kind. -/
theorem members_losing {kind : LastMember} {targets : Targets} {raws raws' : List RawMember}
    (h : List.Forall₂ (RawMember.Loses pool (RawAttribute.Invisible pool)) raws raws') :
    Follows Eq (Abreast G name (Attention.Turned Eq targets kind))
      (raws.forM (memberOf ⟨namer, none⟩ kind)) (raws'.forM (memberOf ⟨namer, none⟩ kind)) :=
  .forM_of_forall₂ (h.imp fun _ _ => memberOf_losing hG)

end Losing

end Decode

/-- **Annotations that are not visible at run time refer to nothing**: a class file that loses some
of them, wherever they stand, is accepted as well, and with the same references and imports. It
exposes the same packages. -/
theorem Session.decode_loses_invisible {options : Options} {bytes : Bytes} {session after : Session}
    {record : Record} (h : session.decode options bytes = (.ok record, after)) :
    ∃ layout trailing, Layout.form.Fits layout ∧ bytes = Layout.form.encode layout ++ trailing ∧
      ∀ layout', layout.Loses (RawAttribute.Invisible layout.constants) layout' →
        ∃ other after',
          session.decode options (Layout.form.encode layout' ++ trailing) = (.ok other, after') ∧
          other.references = record.references ∧ other.imports = record.imports ∧
          other.apiUses = record.apiUses := by
  obtain ⟨layout, trailing, hfits, hbytes, s, hrun, rfl⟩ := decode_eq_ok_iff.1 h
  refine ⟨layout, trailing, hfits, hbytes, fun layout' hloses => ?_⟩
  have hG := Decoder.Gathered.Comes.tandem options.namer
    ⟨layout.constants, (session.decoder options none []).collected⟩
  obtain ⟨_, _, other, t, hother, -, -, ⟨hsame, -⟩, hgathers, hgathers'⟩ :=
    Decode.classOf_abreast Record.Resembles.refl layout' (W := Eq) (X := fun _ => Eq)
      (fun _ => hG) (fun x h => by rw [h])
      hloses.header hloses.superclass hloses.interfaces
      (fun _ _ _ => Decode.members_losing hG hloses.fields)
      (fun _ _ _ => Decode.members_losing hG hloses.methods)
      (fun _ _ _ _ _ hlast => Decode.attributesOf_losing_outside hG hlast hloses.attributes)
      (fun _ _ hopens => ⟨rfl, hopens.comes⟩) rfl rfl rfl rfl rfl hrun
  refine ⟨other, _, (decode_encode_iff (hloses.fits hfits)).2 ⟨t, hother, rfl⟩, ?_, ?_, ?_⟩
  · rw [hgathers.references, hgathers'.references, hsame]
  · rw [hgathers.imports, hgathers'.imports, hsame]
  · rw [Record.apiUses, Record.apiUses, hgathers.api, hgathers'.api, hsame]

/-- A class `A` with an annotation of the type `p.X` that is not visible at run time and has the
class literal `q.Y`. -/
def invisiblyAnnotated : Layout where
  minor := 0
  major := 52
  pool := [0, 7, 1, 0, 1, 65, 7, 0, 1, 1, 0, 27, 82, 117, 110, 116, 105, 109, 101, 73, 110, 118,
    105, 115, 105, 98, 108, 101, 65, 110, 110, 111, 116, 97, 116, 105, 111, 110, 115, 1, 0, 5, 76,
    112, 47, 88, 59, 1, 0, 1, 118, 1, 0, 5, 76, 113, 47, 89, 59]
  access := 0x21
  name := 2
  superclass := 0
  interfaces := []
  fields := []
  methods := []
  attributes := [⟨3, [0, 1, 0, 4, 0, 1, 0, 5, 99, 0, 6]⟩]

theorem invisiblyAnnotated_fits : Layout.form.Fits invisiblyAnnotated := by decide +kernel

/-- The class loses its annotation. -/
theorem invisiblyAnnotated_loses :
    invisiblyAnnotated.Loses (RawAttribute.Invisible invisiblyAnnotated.constants)
      { invisiblyAnnotated with attributes := [] } where
  header := rfl
  superclass := rfl
  interfaces := rfl
  fields := .nil
  methods := .nil
  attributes := by
    have hname : invisiblyAnnotated.constants.utf8 3 = .ok "RuntimeInvisibleAnnotations" := by
      decide +kernel
    exact .drop ⟨"RuntimeInvisibleAnnotations", List.mem_cons_self, hname⟩ .nil

/-- The class has an annotation that cannot be seen at run time, and is accepted. So it is accepted
without it, with the same references. -/
theorem Session.decode_loses_invisible_of_class :
    ∃ record after, Session.decode {} (Layout.form.encode invisiblyAnnotated) {} =
        (.ok record, after) ∧
      ∃ other after', Session.decode {}
          (Layout.form.encode { invisiblyAnnotated with attributes := [] }) {} =
          (.ok other, after') ∧
        other.references = record.references ∧ other.imports = record.imports ∧
        other.apiUses = record.apiUses := by
  have hok : (Session.decode {} (Layout.form.encode invisiblyAnnotated) {}).1.isOk = true := by
    decide +kernel
  obtain ⟨record, after, hrun⟩ := Session.decode_of_isOk hok
  obtain ⟨layout, trailing, hlayout, hbytes, hloses⟩ :=
    @Session.decode_loses_invisible {} _ {} after record hrun
  rw [← List.append_nil (Layout.form.encode invisiblyAnnotated)] at hbytes
  obtain ⟨rfl, rfl⟩ := Form.Distinct.layout invisiblyAnnotated_fits hlayout hbytes
  have hother := hloses _ invisiblyAnnotated_loses
  rw [List.append_nil] at hother
  exact ⟨record, after, hrun, hother⟩

end ClassFile
