import ClassFile.Proofs.Completeness
import ClassFile.Proofs.Following
import ClassFile.Proofs.Ownership
import ClassFile.Proofs.SurplusReferences

/-!
# Signatures that are rejected

A generic signature that does not follow the grammar is left out, wherever it stands: on the
class, on a member, or in a method body. But the classes in front of the fault were referred to
before it was found. So a class file with such a signature is decoded as the file without it is,
except for these references (`ClassFile.Session.decode_sheds`); and a rejected signature that
names no class leaves no trace at all.

To take a signature out of a method body is to change the attribute that the body is. That two
files differ in some signatures only is `ClassFile.Layout.Sheds`.

The two decodings are compared step by step, as long as the first one succeeds
(`ClassFile.Decode.Follows`): it has collected more from the first rejected signature on, and
nothing else sets them apart.
-/

namespace ClassFile

/-! ### Files without some signatures -/

/-- The attribute stays, or it is a method body that loses some signatures with the given
text. -/
inductive RawAttribute.Sheds (pool : Pool) (text : String) : RawAttribute → RawAttribute → Prop
  | same (raw : RawAttribute) : Sheds pool text raw raw
  | inside {name : UInt16} {code : RawCode} {attributes : List RawAttribute} {rest : Bytes} :
    pool.utf8 name = .ok "Code" → RawCode.form.Fits code →
    ClassFile.Sheds (·.Signs pool text) Eq code.attributes attributes →
    Sheds pool text ⟨name, RawCode.form.encode code ++ rest⟩
      ⟨name, RawCode.form.encode { code with attributes } ++ rest⟩

/-- A table of attributes loses some signatures with the given text, there or in a method
body. -/
abbrev RawAttribute.TableSheds (pool : Pool) (text : String) :
    List RawAttribute → List RawAttribute → Prop :=
  ClassFile.Sheds (·.Signs pool text) (RawAttribute.Sheds pool text)

/-- The member loses some signatures with the given text. -/
def RawMember.Sheds (pool : Pool) (text : String) (raw raw' : RawMember) : Prop :=
  ∃ attributes, RawAttribute.TableSheds pool text raw.attributes attributes ∧
    raw' = { raw with attributes }

/-- The class loses some signatures with the given text: its own, those of members, or those in
method bodies. -/
structure Layout.Sheds (text : String) (layout layout' : Layout) : Prop where
  header : layout'.toRawHeader = layout.toRawHeader
  superclass : layout'.superclass = layout.superclass
  interfaces : layout'.interfaces = layout.interfaces
  fields : List.Forall₂ (RawMember.Sheds layout.constants text) layout.fields layout'.fields
  methods : List.Forall₂ (RawMember.Sheds layout.constants text) layout.methods layout'.methods
  attributes :
    RawAttribute.TableSheds layout.constants text layout.attributes layout'.attributes

/-! ### What is left fits -/

theorem RawAttribute.Sheds.loses {pool : Pool} {text : String} {raw raw' : RawAttribute}
    (h : RawAttribute.Sheds pool text raw raw') : raw.Loses pool (·.Signs pool text) raw' := by
  cases h with
  | same => exact .same raw
  | inside hname hfits hsheds => exact .inside hname hfits hsheds

theorem RawMember.Sheds.loses {pool : Pool} {text : String} {raw raw' : RawMember}
    (h : RawMember.Sheds pool text raw raw') : raw.Loses pool (·.Signs pool text) raw' := by
  obtain ⟨attributes, hsheds, rfl⟩ := h
  exact ⟨attributes, hsheds.mono fun _ _ h => h.loses, rfl⟩

theorem Layout.Sheds.fits {text : String} {layout layout' : Layout}
    (h : layout.Sheds text layout') (hfits : Layout.form.Fits layout) :
    Layout.form.Fits layout' := by
  have hloses : layout.Loses (·.Signs layout.constants text) layout' :=
    { header := h.header, superclass := h.superclass, interfaces := h.interfaces
      fields := h.fields.imp fun _ _ h => h.loses
      methods := h.methods.imp fun _ _ h => h.loses
      attributes := h.attributes.mono fun _ _ h => h.loses }
  exact hloses.fits hfits

namespace Decode

/-! ### Decodings of files without some signatures -/

variable {namer : Namer} {types : List TypeName} {pool : Pool} {text : String}

section Rejected

variable {fault : Fault} (hfault : (Signature.scan text).fault = some fault)
  (hnames : ∀ name ∈ (Signature.scan text).names,
    (TypeName.ofText name).referent.isPrimitive = false → (TypeName.ofText name).referent ∈ types)

include hfault hnames

/-- A rejected signature is as good as nothing, but for the classes that it names. -/
theorem signatureAt_rejected {index : UInt16} (htext : pool.utf8 index = .ok text) (site : Site)
    (access : Access) :
    Simulates Eq (Decoder.Exceeds namer types pool) (signatureAt ⟨namer, none⟩ site access index)
      (pure ()) := by
  intro s t hst
  have hs : s.pool.utf8 index = .ok text :=
    Pool.Question.ok_of_like (.utf8 index) hst.like.symm htext
  obtain ⟨u, hmentions, hnext⟩ := (mentions_left_exceed hnames access).ok_of_pure hst
  have hrefer : referDescriptor ⟨namer, none⟩ index access s = .error fault u := by
    refine EStateM.bind_eq (utf8_of_ok hs) (EStateM.bind_eq hmentions ?_)
    rw [hfault]
    rfl
  have hsucceeds : succeeds (referDescriptor ⟨namer, none⟩ index access) s = .ok false u := by
    rw [succeeds, hrefer]
  rw [show signatureAt ⟨namer, none⟩ site access index s = .ok () u from
    EStateM.bind_eq hsucceeds rfl]
  exact .ok hnext

/-- So is the attribute that it stands in. -/
theorem attributeOf_rejected {raw : RawAttribute} (hsigns : raw.Signs pool text)
    (onCode : Decode Unit) (site : Site) (access : Access) :
    Simulates Eq (Decoder.Exceeds namer types pool)
      (attributeOf ⟨namer, none⟩ onCode site access raw) (pure ()) := by
  obtain ⟨hname, index, rest, hbody, htext⟩ := hsigns
  intro s t hst
  have hs : s.pool.utf8 raw.name = .ok "Signature" :=
    Pool.Question.ok_of_like (.utf8 _) hst.like.symm hname
  let behind : Input := ⟨0 + (Form.u2.encode index).length, rest⟩
  have hread : u2 { s with input := .ofBytes raw.body } = .ok index { s with input := behind } :=
    (Parses.u2.eq_ok_iff _ _ _).2 ⟨index, rest, trivial, hbody, rfl⟩
  obtain ⟨u, hsign, hnext⟩ := (signatureAt_rejected hfault hnames htext site access).ok_of_pure
    (Decoder.Exceeds.sameInput.withInput behind hst)
  have hwithin : within raw.body (signatureAttribute ⟨namer, none⟩ site access) s =
      .ok () { u with input := s.input } := by
    rw [within, show signatureAttribute _ site access _ = _ from EStateM.bind_eq hread hsign]
  rw [show attributeOf ⟨namer, none⟩ onCode site access raw s = _ from
    EStateM.bind_eq (utf8_of_ok hs) hwithin]
  have hback := Decoder.Exceeds.sameInput.withInput s.input hnext
  rw [Decoder.Exceeds.sameInput.input hst] at hback ⊢
  exact .ok hback

/-- A table of attributes without some rejected signatures is followed, given what is done with
method bodies. -/
theorem attributesOf_follows {raws raws' : List RawAttribute} {onCode : Decode Unit}
    (hsame : Simulates Eq (Decoder.Exceeds namer types pool) onCode onCode)
    (hcode : ∀ (code : RawCode) attributes rest, RawCode.form.Fits code →
      Sheds (·.Signs pool text) Eq code.attributes attributes →
      Follows Eq (Decoder.Exceeds namer types pool)
        (within (RawCode.form.encode code ++ rest) onCode)
        (within (RawCode.form.encode { code with attributes } ++ rest) onCode))
    (h : RawAttribute.TableSheds pool text raws raws') (site : Site) (access : Access) :
    Follows Eq (Decoder.Exceeds namer types pool)
      (attributesOf ⟨namer, none⟩ onCode site access raws)
      (attributesOf ⟨namer, none⟩ onCode site access raws') := by
  refine .forM (fun raw hraw => ?_) (fun raw raw' hraw => ?_) h
  · exact .of_simulates (attributeOf_rejected hfault hnames hraw onCode site access)
  cases hraw with
  | same => exact .of_simulates (memberwise_exceeds.toLockstep.attributeOf
      memberwise_exceeds.signatureAttribute hsame site access raw)
  | @inside name code attributes rest hname hfits hsheds =>
    intro s t value s' hst hrun
    obtain ⟨found, hfound, hbody⟩ := attributeOf_eq_ok_iff.1 hrun
    have hcodeName : s.pool.utf8 name = .ok "Code" :=
      Pool.Question.ok_of_like (.utf8 name) hst.like.symm hname
    obtain rfl : "Code" = found := Except.ok.inj (hcodeName.symm.trans hfound)
    obtain ⟨_, t', hrest, hvalue, hnext⟩ := hcode code attributes rest hfits hsheds hst hbody
    have ht : t.pool.utf8 name = .ok "Code" := hst.pool_eq ▸ hcodeName
    exact ⟨_, t', attributeOf_eq_ok_iff.2 ⟨_, ht, hrest⟩, hvalue, hnext⟩

/-- Where method bodies are not entered it does not matter what is in them. -/
theorem attributesOf_follows_outside {raws raws' : List RawAttribute}
    (h : RawAttribute.TableSheds pool text raws raws') (site : Site) (access : Access) :
    Follows Eq (Decoder.Exceeds namer types pool)
      (attributesOf ⟨namer, none⟩ (pure ()) site access raws)
      (attributesOf ⟨namer, none⟩ (pure ()) site access raws') := by
  refine attributesOf_follows hfault hnames (.pure ()) (fun code attributes rest _ _ => ?_) h site
    access
  intro s t value s' hst hrun
  cases hrun
  exact ⟨(), t, rfl, rfl, hst⟩

/-- A method body without some rejected signatures is followed. -/
theorem codeOf_follows {code : RawCode} {attributes : List RawAttribute}
    (h : Sheds (·.Signs pool text) Eq code.attributes attributes) :
    Follows Eq (Decoder.Exceeds namer types pool) (codeOf ⟨namer, none⟩ code)
      (codeOf ⟨namer, none⟩ { code with attributes }) := by
  have htable : RawAttribute.TableSheds pool text code.attributes attributes :=
    h.mono fun _ _ hsame => hsame ▸ .same _
  refine .look fun s t hst => ?_
  rw [show s.targets = t.targets from (congrArg Decoder.targets hst.bare :)]
  refine .bind (.of_simulates (memberwise_exceeds.walk t.targets code.code)) fun _ => ?_
  refine .bind (.of_simulates (memberwise_exceeds.forM _ fun handler _ =>
    memberwise_exceeds.constant handler.2)) fun _ => ?_
  exact attributesOf_follows_outside hfault hnames htable .method 0

/-- The attributes of a method are followed, whether or not bodies are walked through. -/
theorem attributesOf_follows_method {raws raws' : List RawAttribute}
    (h : RawAttribute.TableSheds pool text raws raws') (walking : Bool) (site : Site)
    (access : Access) :
    Follows Eq (Decoder.Exceeds namer types pool)
      (attributesOf ⟨namer, none⟩ (if walking then code ⟨namer, none⟩ else pure ()) site access
        raws)
      (attributesOf ⟨namer, none⟩ (if walking then code ⟨namer, none⟩ else pure ()) site access
        raws') := by
  cases walking with
  | false => exact attributesOf_follows_outside hfault hnames h site access
  | true =>
    refine attributesOf_follows hfault hnames memberwise_exceeds.code ?_ h site access
    intro code attributes rest hfits hsheds
    exact .within (.code _) .code hfits (RawCode.fits_of_sheds hsheds hfits)
      (codeOf_follows hfault hnames hsheds) rest

theorem fieldOf_follows {raw raw' : RawMember} (h : raw.Sheds pool text raw') :
    Follows Eq (Decoder.Exceeds namer types pool) (fieldOf ⟨namer, none⟩ raw)
      (fieldOf ⟨namer, none⟩ raw') := by
  obtain ⟨attributes, hsheds, rfl⟩ := h
  refine .bind (.of_simulates (memberwise_exceeds.memberHeaderOf raw)) fun header => ?_
  refine .bind (.of_simulates (memberwise_exceeds.openField header)) fun _ => ?_
  exact attributesOf_follows_outside hfault hnames hsheds .field header.access

theorem methodOf_follows {raw raw' : RawMember} (h : raw.Sheds pool text raw') :
    Follows Eq (Decoder.Exceeds namer types pool) (methodOf ⟨namer, none⟩ raw)
      (methodOf ⟨namer, none⟩ raw') := by
  obtain ⟨attributes, hsheds, rfl⟩ := h
  refine .bind (.of_simulates (memberwise_exceeds.memberHeaderOf raw)) fun header => ?_
  refine .bind (.of_simulates (memberwise_exceeds.openMethod header)) fun _ => ?_
  refine .look fun s t hst => ?_
  rw [show s.walking = t.walking from (congrArg Decoder.walking hst.bare :)]
  exact attributesOf_follows_method hfault hnames hsheds t.walking _ header.access

/-- All that follows the name of a class is followed, up to the references in the record. -/
theorem classBodyOf_follows {layout layout' : Layout} (h : layout.Sheds text layout')
    (hpool : layout.constants = pool) (orphan : Bool) :
    Follows (Record.Exceeds namer types) (Decoder.Exceeds namer types pool)
      (classBodyOf ⟨namer, none⟩ orphan layout.toRawBody)
      (classBodyOf ⟨namer, none⟩ orphan layout'.toRawBody) := by
  subst hpool
  have hmembers {f : RawMember → Decode Unit} {raws raws' : List RawMember}
      (hf : ∀ raw raw', raw.Sheds layout.constants text raw' →
        Follows Eq (Decoder.Exceeds namer types layout.constants) (f raw) (f raw'))
      (h : List.Forall₂ (RawMember.Sheds layout.constants text) raws raws') :
      Follows Eq (Decoder.Exceeds namer types layout.constants) (raws.forM f) (raws'.forM f) :=
    .forM_of_forall₂ (h.imp fun _ _ hraw => hf _ _ hraw)
  rw [classBodyOf, classBodyOf, h.superclass, h.interfaces]
  refine .bind (.of_simulates memberwise_exceeds.record) fun record => ?_
  refine .bind (.of_simulates (memberwise_exceeds.superclassAt record.access _)) fun _ => ?_
  refine .bind (.of_simulates (memberwise_exceeds.interfacesOf record.access _)) fun _ => ?_
  refine .bind (hmembers (fun _ _ => fieldOf_follows hfault hnames) h.fields) fun _ => ?_
  refine .bind (.of_simulates (memberwise_exceeds.prepareWalks orphan)) fun _ => ?_
  refine .bind (hmembers (fun _ _ => methodOf_follows hfault hnames) h.methods) fun _ => ?_
  refine .bind (.of_simulates (memberwise_exceeds.announce rfl)) fun _ => ?_
  refine .bind (.of_simulates (memberwise_exceeds.attend fun scene =>
    ⟨none, scene.walking, scene.targets⟩)) fun _ => ?_
  refine .bind (attributesOf_follows_outside hfault hnames h.attributes .type record.access)
    fun _ => ?_
  intro s t record s' hst hrun
  obtain ⟨rfl, other, hother, hexceeds⟩ := finish_exceeds hst hrun
  exact ⟨other, t, hother, hexceeds, hst⟩

end Rejected

end Decode

/-- The classes that a text names, but for those that pass for primitive types. -/
def Signature.named (text : String) : List TypeName :=
  ((Signature.scan text).names.map fun name => (TypeName.ofText name).referent).filter
    fun type => !type.isPrimitive

theorem Signature.mem_named {text name : String} (hname : name ∈ (Signature.scan text).names)
    (htype : (TypeName.ofText name).referent.isPrimitive = false) :
    (TypeName.ofText name).referent ∈ Signature.named text :=
  List.mem_filter.2 ⟨List.mem_map_of_mem hname, by rw [htype]; rfl⟩

namespace Session

/-- **A class file with a rejected signature is decoded as the file without it**, wherever the
signature stands, but for references to the classes that it names. If it names none, nothing
sets the two records apart. -/
theorem decode_sheds {options : Options} {layout layout' : Layout} {text : String} {fault : Fault}
    (hfits : Layout.form.Fits layout) (hfault : (Signature.scan text).fault = some fault)
    (hsheds : layout.Sheds text layout') {trailing : Bytes} {session after : Session}
    {record : Record}
    (h : session.decode options (Layout.form.encode layout ++ trailing) = (.ok record, after)) :
    ∃ other after',
      session.decode options (Layout.form.encode layout' ++ trailing) = (.ok other, after') ∧
      record.Exceeds options.namer (Signature.named text) other ∧
      (Signature.named text = [] → record = other) := by
  obtain ⟨s, hrun, -⟩ := (decode_encode_iff hfits).1 h
  obtain ⟨⟨_, orphan⟩, u, hheader, hbody⟩ := EStateM.ok_of_bind hrun
  obtain ⟨_, _, _, _, hlike⟩ := Decode.classHeaderOf_record rfl hheader
  -- up to here both decodings did the same
  have hu := Decoder.Exceeds.refl options.namer (Signature.named text) hlike
  obtain ⟨other, v, hother, hexceeds, -⟩ := Decode.classBodyOf_follows hfault
    (fun _ hname htype => Signature.mem_named hname htype) hsheds rfl orphan hu hbody
  have hrun' : Decode.classOf ⟨options.namer, none⟩ layout' (session.decoder options none []) =
      .ok other v := by
    rw [Decode.classOf, hsheds.header]
    exact EStateM.bind_eq hheader hother
  refine ⟨other, _, (decode_encode_iff (hsheds.fits hfits)).2 ⟨v, hrun', rfl⟩, hexceeds, ?_⟩
  intro hnone
  rw [hnone] at hexceeds
  exact hexceeds.eq

/-- A class `A` with the signature `La/B;!`, and without it. The class `a/B` is named in front of
the mark at which the text is refused, so it is referred to all the same. -/
theorem decode_sheds_of_class :
    let layout : Layout :=
      { minor := 0, major := 52
        pool := [0, 5, 1, 0, 1, 65, 7, 0, 1, 1, 0, 9, 83, 105, 103, 110, 97, 116, 117, 114, 101,
          1, 0, 6, 76, 97, 47, 66, 59, 33]
        access := 0x21, name := 2, superclass := 0, interfaces := [], fields := [], methods := []
        attributes := [⟨3, [0, 4]⟩] }
    let layout' : Layout := { layout with attributes := [] }
    Layout.form.Fits layout ∧ (∃ fault, (Signature.scan "La/B;!").fault = some fault) ∧
      layout.Sheds "La/B;!" layout' ∧ Namer.shared.Ignores (Signature.named "La/B;!") ∧
      ∃ record after,
        Session.decode {} (Layout.form.encode layout ++ [7]) {} = (.ok record, after) ∧
        ∃ other after',
          Session.decode {} (Layout.form.encode layout' ++ [7]) {} = (.ok other, after') ∧
          record.Exceeds .shared (Signature.named "La/B;!") other ∧
          (Signature.named "La/B;!" = [] → record = other) := by
  intro layout layout'
  have hcount (n : Nat) (h : n < 2) : Form.count.Fits n := Nat.lt_trans h (by decide)
  have hpool : (Pool.ofBytes layout.pool).isSome = true := by decide +kernel
  have hsignature : RawAttribute.form.Fits ⟨3, [0, 4]⟩ :=
    (by decide : 2 ≤ attributeLimit)
  have hfits : Layout.form.Fits layout :=
    ⟨hpool, ⟨hcount 0 (by decide), nofun⟩, ⟨hcount 0 (by decide), nofun⟩,
      ⟨hcount 0 (by decide), nofun⟩, hcount 1 (by decide), List.forall_mem_singleton.2 hsignature⟩
  have hrejected : (Signature.scan "La/B;!").fault.isSome = true := by decide +kernel
  obtain ⟨fault, hfault⟩ := Option.isSome_iff_exists.1 hrejected
  have hname : (layout.constants.utf8 3).toOption = some "Signature" := by decide +kernel
  have htext : (layout.constants.utf8 4).toOption = some "La/B;!" := by decide +kernel
  have hsigns : RawAttribute.Signs layout.constants "La/B;!" ⟨3, [0, 4]⟩ :=
    ⟨Except.eq_ok_of_toOption hname, 4, [], rfl, Except.eq_ok_of_toOption htext⟩
  have hsheds : layout.Sheds "La/B;!" layout' :=
    { header := rfl, superclass := rfl, interfaces := rfl, fields := .nil, methods := .nil
      attributes := .drop hsigns .nil }
  have hignores : Namer.shared.Ignores (Signature.named "La/B;!") :=
    Namer.shared_ignores (by decide +kernel)
  refine ⟨hfits, ⟨fault, hfault⟩, hsheds, hignores, ?_⟩
  have hok : (Session.decode {} (Layout.form.encode layout ++ [7]) {}).1.isOk = true := by
    decide +kernel
  obtain ⟨record, after, hrun⟩ := decode_of_isOk hok
  exact ⟨record, after, hrun, @decode_sheds {} layout layout' "La/B;!" fault hfits hfault hsheds
    [7] {} after record hrun⟩

/-- The rejected signature of the class leaves a trace: `a/B` is among the references with it, and
not without it. -/
theorem decode_sheds_differs_of_class :
    let pool : Bytes := [0, 5, 1, 0, 1, 65, 7, 0, 1, 1, 0, 9, 83, 105, 103, 110, 97, 116, 117, 114,
      101, 1, 0, 6, 76, 97, 47, 66, 59, 33]
    let file (attributes : List RawAttribute) : Bytes := Layout.form.encode
      { minor := 0, major := 52, pool, access := 0x21, name := 2, superclass := 0
        interfaces := [], fields := [], methods := [], attributes }
    let refers (file : Bytes) : Option Bool :=
      ((Session.decode {} file {}).1.map fun record =>
        decide (⟨"a/B"⟩ ∈ record.references)).toOption
    (Signature.scan "La/B;!").fault.isSome = true ∧
      ((Pool.ofBytes pool).map fun pool => (pool.utf8 4).toOption) = some (some "La/B;!") ∧
      refers (file [⟨3, [0, 4]⟩]) = some true ∧ refers (file []) = some false := by
  decide +kernel

end Session

end ClassFile
