import ClassFile.Proofs.Acting
import ClassFile.Proofs.Annotations
import ClassFile.Proofs.References

/-!
# Exposed packages

Most of the packages that a class exposes are those of types that are referred to, and so they are
imported. The types in annotations are exposed on their own, by what their text is as a whole,
while references are to the names that are found in it. The two readings agree on the plain
descriptor of a class or of an array of classes, and need not agree on any other text.

So a package that is exposed and not imported is that of a text of another kind, in an annotation
that is visible at run time (`ClassFile.Session.decode_apiUses`). There are files with one.
-/

namespace ClassFile

/-- The package that is handed out for a type depends only on the one that its name spells. -/
def Namer.ByPackage (namer : Namer) : Prop :=
  ∀ type other, Package.ofType type = Package.ofType other → ∀ table,
    namer.packageOf type table = namer.packageOf other table

theorem Namer.exact_byPackage : exact.ByPackage :=
  fun _ _ hsame table => congrArg (·, table) hsame

theorem Namer.shared_byPackage : shared.ByPackage :=
  fun _ _ hsame table => congrArg table.handOut hsame

/-- If a text of the pool is no plain descriptor, then its type is excepted. -/
def Pool.Admits (pool : Pool) (excepted : TypeName → Prop) (index : UInt16) : Prop :=
  ∀ text, pool.utf8 index = .ok text → ¬Signature.DescribesClass text → excepted (.ofText text)

/-! ### What is exposed -/

namespace Decoder.Collected

variable {namer : Namer} {excepted : TypeName → Prop} {found : Collected}

/-- Every exposed package is imported, unless it is that of a type that is excepted. -/
structure Surfaced (namer : Namer) (excepted : TypeName → Prop) (found : Collected) : Prop where
  filed : found.Filed namer
  exposed : ∀ api ∈ found.api, ∀ package ∈ api, package.primitive = false ∧
    (package ∈ found.imports ∨
      ∃ type, excepted type ∧ namer.Settled found.session.table type package)

namespace Surfaced

/-- It does not matter which packages are asked for afterwards: what is exposed comes from the same
texts. -/
theorem later (h : found.Surfaced namer excepted) {other : Collected}
    (htable : namer.Reaches found.session.table other.session.table)
    (hreferences : other.references = found.references)
    (himports : other.imports = found.imports) (hapi : other.api = found.api) :
    other.Surfaced namer excepted where
  filed := h.filed.later htable hreferences himports
  exposed api hmem package hpackage := by
    rw [hapi] at hmem
    obtain ⟨hordinary, himported | ⟨type, htype, hsettled⟩⟩ := h.exposed api hmem package hpackage
    · exact ⟨hordinary, .inl (himports ▸ himported)⟩
    · exact ⟨hordinary, .inr ⟨type, htype, hsettled.mono htable⟩⟩

/-- A package may be exposed if it is imported, or if its type is excepted. -/
theorem insert (h : found.Surfaced namer excepted) {package : Package}
    (hordinary : package.primitive = false)
    (hnew : package ∈ found.imports ∨
      ∃ type, excepted type ∧ namer.Settled found.session.table type package) :
    Surfaced namer excepted { found with api := found.api.map (·.insert package) } where
  filed := h.filed.later (.refl _) rfl rfl
  exposed api hmem other hother := by
    obtain ⟨earlier, hearlier, rfl⟩ := Option.map_eq_some_iff.1 (Option.mem_def.1 hmem)
    rcases Std.ExtTreeSet.mem_insert.1 hother with hsame | hother
    · obtain rfl := Std.LawfulEqOrd.eq_of_compare hsame
      exact ⟨hordinary, hnew⟩
    · exact h.exposed earlier hearlier other hother

/-- A type that is referred to is imported before it is exposed. -/
theorem refer (hsteady : namer.Steady) (h : found.Surfaced namer excepted) (type : TypeName)
    (access : Access) : (found.refer namer type access).Surfaced namer excepted := by
  by_cases htakes : found.Takes namer type
  · have hfiled := h.filed.refer hsteady type access
    have htable : namer.Reaches found.session.table (found.refer namer type access).session.table :=
      reaches_refer type access found
    rw [refer_of_takes htakes] at hfiled htable ⊢
    -- the reference is kept, and then the package may be exposed
    have hkept : Surfaced namer excepted
        { session := { found.session with
            table := (namer.packageOf type.referent found.session.table).2 }
          references := found.references.insert type.referent
          imports := found.imports.insert (namer.packageOf type.referent found.session.table).1
          api := found.api } := by
      refine ⟨hfiled.later (.refl _) rfl rfl, fun api hmem package hpackage => ?_⟩
      obtain ⟨hordinary, himported | ⟨other, hother, hsettled⟩⟩ :=
        h.exposed api hmem package hpackage
      · exact ⟨hordinary, .inl (Std.ExtTreeSet.mem_insert.2 (.inr himported))⟩
      · exact ⟨hordinary, .inr ⟨other, hother, hsettled.mono htable⟩⟩
    dsimp only
    split
    · exact hkept.insert htakes.2 (.inl Std.ExtTreeSet.mem_insert_self)
    · exact hkept
  · rcases refer_of_not_takes htakes access with hsame | hasked
    · rw [hsame]
      exact h
    · rw [hasked]
      exact h.later (.ask _ (.refl _)) rfl rfl rfl

theorem kept (hsteady : namer.Steady) (excepted : TypeName → Prop) (pool : Pool) :
    Kept ⟨namer, none⟩ pool True (Surfaced namer excepted) where
  refer access _ h := h.refer hsteady _ access
  told _ h := h
  opened hempty h := by
    refine ⟨h.filed.later (.refl _) rfl rfl, fun api hmem package hpackage => ?_⟩
    rw [hempty api hmem] at hpackage
    exact absurd hpackage Std.ExtTreeSet.not_mem_empty

/-- A type may be exposed if its package is imported, or if it is excepted. -/
theorem expose (hsteady : namer.Steady) (h : found.Surfaced namer excepted) (type : TypeName)
    (access : Access)
    (hnew : access.isVisible = true →
      (namer.packageOf type found.session.table).1.primitive = false →
      (namer.packageOf type found.session.table).1 ∈ found.imports ∨ excepted type) :
    (found.expose namer type access).Surfaced namer excepted := by
  rw [Collected.expose]
  split
  · rename_i hvisible
    have hasked : Surfaced namer excepted { found with session := { found.session with
        table := (namer.packageOf type found.session.table).2 } } :=
      h.later (.ask _ (.refl _)) rfl rfl rfl
    dsimp only
    split
    · exact hasked
    · rename_i hpackage
      have hordinary := eq_false_of_ne_true hpackage
      refine hasked.insert hordinary ((hnew hvisible.2 hordinary).imp_right fun htype => ?_)
      exact ⟨type, htype, hsteady type _⟩
  · exact h

end Surfaced

end Decoder.Collected

namespace Decode

open Decoder

/-- The class that a plain descriptor names is imported once it was referred to. -/
theorem imported_of_heard {namer : Namer} (hby : namer.ByPackage) {s : Decoder}
    (hfiled : s.collected.Filed namer) {text : String} (htext : Signature.DescribesClass text)
    (hheard : s.Heard namer 0 text)
    (hordinary : (namer.packageOf (.ofText text) s.session.table).1.primitive = false) :
    (namer.packageOf (.ofText text) s.session.table).1 ∈ s.imports := by
  obtain ⟨brackets, name, hname, htext⟩ := htext
  have hnames : String.ofList name ∈ (Signature.scan text).names := by
    rw [Signature.scan_of_class hname htext]
    exact List.mem_singleton_self _
  have hreferred := hheard _ hnames
  rw [hby _ _ (Package.ofType_ofText_of_class hname htext)] at hordinary ⊢
  rw [TypeName.referent_ofText_of_plain hname] at hreferred
  rcases hreferred with hprimitive | ⟨package, hsettled, hprimitive | ⟨hmem, -⟩⟩
  · rw [TypeName.isPrimitive, String.toList_ofList, hname.letter] at hprimitive
    cases hprimitive
  · rw [hsettled _ (.refl _), hprimitive] at hordinary
    cases hordinary
  · obtain ⟨other, hother, hsettled'⟩ := hfiled.imported _ hmem
    rwa [show (namer.packageOf ⟨String.ofList name⟩ s.session.table).1 = other from
      hsettled' _ (.refl _)]

/-- If the step succeeds, then what is exposed is imported or excepted afterwards, as it was
before. -/
abbrev Surfacing (namer : Namer) (excepted : TypeName → Prop) (pool : Pool) {α : Type}
    (m : Decode α) : Prop :=
  Leads (Holds pool (Collected.Surfaced namer excepted))
    (fun _ => Holds pool (Collected.Surfaced namer excepted)) m

section Leading

variable {namer : Namer} (hsteady : namer.Steady) (hby : namer.ByPackage)
  {excepted : TypeName → Prop} {pool : Pool}
include hsteady hby

/-- **The type of an annotation** is exposed with what was imported, unless its text is no plain
descriptor. -/
theorem holding_annotationType {retention : Retention} {access : Access} {index : UInt16}
    (hadmits : retention = .runtime → access.isVisible = true → pool.Admits excepted index) :
    Holding pool (Collected.Surfaced namer excepted)
      (annotationType ⟨namer, none⟩ retention access index) := by
  refine .bind_of_ok (.ask _) fun s text t hlike hrun => ?_
  have htext := (Pool.Question.utf8 index).ok_of_like hlike (ok_of_utf8 hrun).1
  cases retention with
  | compiled => exact .pure _
  | runtime =>
    have hreferred : Holding pool (Collected.Surfaced namer excepted)
        (referDescriptor ⟨namer, none⟩ index 0) :=
      .referDescriptor (Collected.Surfaced.kept hsteady excepted pool) index 0
    refine ⟨hreferred.keeps.bind_at fun s _ t hs hrun ht => ?_⟩
    have hhere : s.pool.utf8 index = .ok text :=
      (Pool.Question.utf8 index).ok_of_like hs.1.symm htext
    obtain ⟨u, hends, -, hheard, -, -⟩ := referDescriptor_ends hsteady hhere 0
    obtain rfl := hends.unique hrun
    have hexposed := ht.2.expose hsteady (.ofText text) access fun hvisible hordinary => by
      by_cases hclass : Signature.DescribesClass text
      · exact .inl (imported_of_heard hby ht.2.filed hclass hheard hordinary)
      · exact .inr (hadmits rfl hvisible text htext hclass)
    have hlast := EStateM.bind_eq (f := fun _ => Pure.pure (TypeName.ofText text))
      (expose_eq ⟨namer, none⟩ (.ofText text) access u) rfl
    rw [hlast]
    exact ⟨ht.1, hexposed⟩

/-! ### Attributes -/

omit hby in
theorem holding_signatureAttribute (site : Site) (access : Access) :
    Holding pool (Collected.Surfaced namer excepted)
      (signatureAttribute ⟨namer, none⟩ site access) :=
  (Holding.stepwise (Collected.Surfaced.kept hsteady excepted pool) trivial).signatureAttribute
    (fun _ => .updateMember _) site access

/-- Nothing in a method body is exposed, for what stands there has no flags that can be seen. -/
theorem holding_code : Holding pool (Collected.Surfaced namer excepted) (code ⟨namer, none⟩) := by
  have hstepwise := Holding.stepwise (Collected.Surfaced.kept hsteady excepted pool) trivial
  refine hstepwise.code (fun retention index => ?_) (holding_signatureAttribute hsteady)
    fun code => .look fun s _ => hstepwise.walk s.targets code
  exact holding_annotationType hsteady hby nofun

/-- The body of an attribute, by the types that it names for all to see. -/
theorem surfacing_attributeBody {onCode : Decode Unit}
    (hcode : Holding pool (Collected.Surfaced namer excepted) onCode) {site : Site}
    {access : Access} {kind : AttributeKind} {body : Bytes}
    (hadmits : access.isVisible = true → ∀ index, kind.Annotates index body →
      pool.Admits excepted index) :
    Surfacing namer excepted pool
      (within body (attributeBody ⟨namer, none⟩ onCode site access kind)) := by
  have hstepwise := Holding.stepwise (Collected.Surfaced.kept hsteady excepted pool) trivial
  have htype {index : UInt16} (hindex : kind.Annotates index body) :
      Holding pool (Collected.Surfaced namer excepted)
        (annotationType ⟨namer, none⟩ .runtime access index) :=
    holding_annotationType hsteady hby fun _ hvisible => hadmits hvisible index hindex
  by_cases hkind : kind.retention? = some .runtime
  · exact hstepwise.toNoting.leads_annotations (fun h => h.keeps.leads) (fun _ _ hs => hs) hkind
      fun _ => htype
  · have hbody := @Signing.attributeBody _ _ _ hstepwise.toSigning onCode onCode site access kind
    refine (Holding.within (hbody (fun retention hretention index => ?_)
      (fun _ => holding_signatureAttribute hsteady site access) fun _ => hcode)).keeps.leads
    refine holding_annotationType hsteady hby fun hruntime => ?_
    exact absurd (hruntime ▸ hretention) hkind

theorem surfacing_attributesOf {onCode : Decode Unit}
    (hcode : Holding pool (Collected.Surfaced namer excepted) onCode) {site : Site}
    {access : Access} {raws : List RawAttribute}
    (hadmits : access.isVisible = true → ∀ raw ∈ raws, ∀ index, raw.Annotates pool index →
      pool.Admits excepted index) :
    Surfacing namer excepted pool (attributesOf ⟨namer, none⟩ onCode site access raws) := by
  refine .forM fun raw hraw => ?_
  intro s _ u hs hrun
  obtain ⟨name, hname, hbody⟩ := attributeOf_eq_ok_iff.1 hrun
  have hname := (Pool.Question.utf8 raw.name).ok_of_like hs.1 hname
  refine surfacing_attributeBody hsteady hby hcode (fun hvisible index hindex => ?_) _ _ _ hs hbody
  exact hadmits hvisible raw hraw index ⟨name, hname, hindex⟩

/-! ### Members and classes -/

omit hsteady hby in
theorem surfacing_member {raw : RawMember} {f : MemberHeader → Decode Unit}
    (hf : ∀ header, header.access = raw.access → Surfacing namer excepted pool (f header)) :
    Surfacing namer excepted pool (memberHeaderOf raw >>= f) := by
  intro s _ w hs hrun
  obtain ⟨header, _, hheader, hlast⟩ := EStateM.ok_of_bind hrun
  obtain ⟨rfl, haccess, -⟩ := memberHeaderOf_ok hheader
  exact hf header haccess _ _ _ hs hlast

section Members

variable {raw : RawMember}
  (hadmits : raw.access.isVisible = true → ∀ inner ∈ raw.attributes, ∀ index,
    inner.Annotates pool index → pool.Admits excepted index)
include hadmits

theorem surfacing_fieldOf : Surfacing namer excepted pool (fieldOf ⟨namer, none⟩ raw) := by
  have hrecording := Holding.recording (Collected.Surfaced.kept hsteady excepted pool)
  refine surfacing_member fun header haccess => ?_
  refine (hrecording.openField header).keeps.leads.bind fun _ => ?_
  exact surfacing_attributesOf hsteady hby (.pure ()) (haccess ▸ hadmits)

theorem surfacing_methodOf : Surfacing namer excepted pool (methodOf ⟨namer, none⟩ raw) := by
  have hrecording := Holding.recording (Collected.Surfaced.kept hsteady excepted pool)
  refine surfacing_member fun header haccess => ?_
  refine (hrecording.openMethod header).keeps.leads.bind fun _ => .look fun s _ => ?_
  refine surfacing_attributesOf hsteady hby ?_ (haccess ▸ hadmits)
  split
  · exact holding_code hsteady hby
  · exact .pure ()

end Members

/-- **What is exposed by a class** is imported, or is excepted because the class names it for all
to see in a text that is no plain descriptor. -/
theorem surfaced_of_classOf {layout : Layout} {s t : Decoder} {record : Record}
    (hadmits : ∀ index, layout.Annotates index → layout.constants.Admits excepted index)
    (hrun : classOf ⟨namer, none⟩ layout s = .ok record t)
    (hs : s.collected.Surfaced namer excepted) :
    record.imports = t.imports ∧ record.api = t.api ∧ t.collected.Surfaced namer excepted := by
  have hkept := Collected.Surfaced.kept hsteady excepted layout.constants
  have hrecording := Holding.recording hkept
  have hmember (kind : LastMember) (raw : RawMember) (hraw : raw ∈ layout.members kind)
      (hvisible : raw.access.isVisible = true) (inner : RawAttribute)
      (hinner : inner ∈ raw.attributes)
      (index : UInt16) (hindex : inner.Annotates layout.constants index) :=
    hadmits index (.inr ⟨kind, raw, hraw, hvisible, inner, hinner, hindex⟩)
  -- a reference imports what it exposes, so it is in attributes that something may be excepted
  have hbody (orphan : Bool) : Leads
      (Holds layout.constants (Collected.Surfaced namer excepted))
      (fun record t => record.imports = t.imports ∧ record.api = t.api ∧
        t.collected.Surfaced namer excepted)
      (classBodyOf ⟨namer, none⟩ orphan layout.toRawBody) := by
    refine Leads.record.bind fun found => ?_
    refine (hrecording.superclassAt found.access _).keeps.leads.bind fun _ => ?_
    refine (hrecording.interfacesOf found.access _).keeps.leads.bind fun _ => ?_
    refine (Leads.forM fun raw hraw => surfacing_fieldOf hsteady hby (hmember .field raw hraw)).bind
      fun _ => ?_
    refine (hrecording.prepareWalks orphan).keeps.leads.bind fun _ => ?_
    refine (Leads.forM fun raw hraw =>
      surfacing_methodOf hsteady hby (hmember .method raw hraw)).bind fun _ => ?_
    refine (Holding.tell hkept .membersEnd).keeps.leads.bind fun _ => ?_
    refine (hrecording.attend fun scene =>
      ⟨none, scene.walking, scene.targets⟩).keeps.leads.bind fun _ => ?_
    refine (surfacing_attributesOf hsteady hby (.pure ()) fun _ raw hraw index hindex =>
      hadmits index (.inl ⟨raw, hraw, hindex⟩)).bind fun _ => ?_
    intro u record v hu hfinish
    obtain ⟨rfl, found, -, rfl⟩ := ok_of_finish hfinish
    exact ⟨rfl, rfl, hu.2⟩
  obtain ⟨⟨header, orphan⟩, u, hheader, hrest⟩ := EStateM.ok_of_bind hrun
  exact hbody orphan u record t (Holding.classHeaderOf hkept rfl hheader hs) hrest

end Leading

end Decode

/-- **Every package that a class exposes is imported and is not that of the primitive types**,
unless the class names it for all to see, in an annotation, by a text that is not the plain
descriptor of a class or of an array of classes. -/
theorem Session.decode_apiUses {options : Options} (hsteady : options.namer.Steady)
    (hby : options.namer.ByPackage) {bytes : Bytes} {session after : Session} {record : Record}
    (h : session.decode options bytes = (.ok record, after)) :
    ∃ layout trailing, Layout.form.Fits layout ∧ bytes = Layout.form.encode layout ++ trailing ∧
      ∀ package ∈ record.apiUses, package.primitive = false ∧ (package ∈ record.imports ∨
        ∃ index text, layout.Annotates index ∧ layout.constants.utf8 index = .ok text ∧
          ¬Signature.DescribesClass text ∧ ∀ later, options.namer.Reaches after.table later →
            (options.namer.packageOf (.ofText text) later).1 = package) := by
  obtain ⟨layout, trailing, hfits, hbytes, s, hrun, rfl⟩ := decode_eq_ok_iff.1 h
  let excepted (type : TypeName) : Prop := ∃ index text, layout.Annotates index ∧
    layout.constants.utf8 index = .ok text ∧ ¬Signature.DescribesClass text ∧ type = .ofText text
  have hstart : (session.decoder options none []).collected.Surfaced options.namer excepted :=
    ⟨⟨fun _ h => absurd h Std.ExtTreeSet.not_mem_empty,
      fun _ h => absurd h Std.ExtTreeSet.not_mem_empty⟩, nofun⟩
  obtain ⟨himports, hapi, hsurfaced⟩ := Decode.surfaced_of_classOf hsteady hby
    (fun index hindex text htext hclass => ⟨index, text, hindex, htext, hclass, rfl⟩) hrun hstart
  refine ⟨layout, trailing, hfits, hbytes, fun package hpackage => ?_⟩
  obtain ⟨api, hsome, hmem⟩ : ∃ api, s.api = some api ∧ package ∈ api := by
    rw [Record.apiUses, hapi] at hpackage
    cases hsome : s.api with
    | none =>
      rw [hsome] at hpackage
      exact absurd hpackage Std.ExtTreeSet.not_mem_empty
    | some api =>
      rw [hsome] at hpackage
      exact ⟨api, rfl, hpackage⟩
  rw [himports]
  refine (hsurfaced.exposed api hsome package hmem).imp_right fun h => h.imp_right ?_
  rintro ⟨_, ⟨index, text, hindex, htext, hclass, rfl⟩, hsettled⟩
  exact ⟨index, text, hindex, htext, hclass, hsettled⟩

/-- A public class `A` with an annotation of the type `Lfoo/Bar<La/B;>;`. -/
def annotatedWithArguments : Bytes :=
  [0xCA, 0xFE, 0xBA, 0xBE, 0, 0, 0, 52, 0, 5, 1, 0, 1, 65, 7, 0, 1,
    1, 0, 25, 82, 117, 110, 116, 105, 109, 101, 86, 105, 115, 105, 98, 108, 101, 65, 110, 110, 111,
    116, 97, 116, 105, 111, 110, 115, 1, 0, 16, 76, 102, 111, 111, 47, 66, 97, 114, 60, 76, 97, 47,
    66, 59, 62, 59, 0, 0x21, 0, 2, 0, 0, 0, 0, 0, 0, 0, 0, 0, 1, 0, 3, 0, 0, 0, 6, 0, 1, 0, 4, 0, 0]

/-- The text of the annotation is not a plain descriptor, for it has arguments. The class is
accepted, and what it exposes without importing comes from this text. -/
theorem Session.decode_apiUses_of_arguments :
    ∃ record after, Session.decode {} annotatedWithArguments {} = (.ok record, after) ∧
      ∃ layout trailing, Layout.form.Fits layout ∧
        annotatedWithArguments = Layout.form.encode layout ++ trailing ∧
        ∀ package ∈ record.apiUses, package.primitive = false ∧ (package ∈ record.imports ∨
          ∃ index text, layout.Annotates index ∧ layout.constants.utf8 index = .ok text ∧
            ¬Signature.DescribesClass text ∧ ∀ later, Namer.shared.Reaches after.table later →
              (Namer.shared.packageOf (.ofText text) later).1 = package) := by
  have hok : (Session.decode {} annotatedWithArguments {}).1.isOk = true := by decide +kernel
  obtain ⟨record, after, hrun⟩ := Session.decode_of_isOk hok
  exact ⟨record, after, hrun, @Session.decode_apiUses {} Namer.shared_steady
    Namer.shared_byPackage annotatedWithArguments {} after record hrun⟩

/-- The text as a whole is in the package `foo/Bar<La`, and the names in it are not. So the class
exposes a package that it does not import. -/
theorem Session.apiUses_of_arguments :
    ((Session.decode {} annotatedWithArguments {}).1.map fun record =>
      (record.apiUses.toList, record.imports.toList)).toOption =
        some ([⟨"", false⟩, ⟨"foo/Bar<La", false⟩],
          [⟨"", false⟩, ⟨"a", false⟩, ⟨"foo", false⟩]) := by
  decide +kernel

end ClassFile
