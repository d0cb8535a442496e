import ClassFile.Proofs.Classwise

/-!
# What members do not say of their class

Three attributes are put on record of the class wherever they stand: those that tell of nested
classes, of the enclosing method, and of the source file. Whatever else a member carries, and
whatever is in its bodies, only adds to what was gathered and to the traits of the class, or is said
of the member. So a member without these three attributes, which is *plain*
(`ClassFile.RawMember.Plain`), leaves the rest of the record as it is
(`ClassFile.Decode.memberOf_backs`).
-/

namespace ClassFile

/-! ### Plain members -/

/-- The attribute is put on record of the class, wherever it stands. -/
def AttributeKind.ofClass : AttributeKind → Bool
  | .innerClasses | .enclosingMethod | .sourceFile => true
  | _ => false

/-- The attribute is put on record of the class, wherever it stands. -/
def RawAttribute.OfClass (pool : Pool) (raw : RawAttribute) : Prop :=
  ∃ name, pool.utf8 raw.name = .ok name ∧ (AttributeKind.ofName name).ofClass = true

/-- The attribute is not put on record of the class, and if it is a method body, no attribute in it
is. -/
structure RawAttribute.Plain (pool : Pool) (raw : RawAttribute) : Prop where
  outside : ¬raw.OfClass pool
  inside : pool.utf8 raw.name = .ok "Code" → ∀ (code : RawCode) (rest : Bytes),
    RawCode.form.Fits code → raw.body = RawCode.form.encode code ++ rest →
      ∀ inner ∈ code.attributes, ¬inner.OfClass pool

/-- An attribute of another name is plain, unless it is a method body, in which such an attribute
might stand. -/
theorem RawAttribute.Plain.of_name {pool : Pool} {raw : RawAttribute} {text : String}
    (hname : pool.utf8 raw.name = .ok text) (hkind : (AttributeKind.ofName text).ofClass = false)
    (hcode : text ≠ "Code") : raw.Plain pool where
  outside := by
    rintro ⟨other, hother, hclass⟩
    cases hname.symm.trans hother
    exact Bool.false_ne_true (hkind.symm.trans hclass)
  inside hbody := absurd (Except.ok.inj (hname.symm.trans hbody)) hcode

/-- All attributes of the member are plain. -/
def RawMember.Plain (pool : Pool) (raw : RawMember) : Prop :=
  ∀ inner ∈ raw.attributes, inner.Plain pool

/-- All members of the class are plain. -/
def Layout.Plain (layout : Layout) : Prop :=
  ∀ kind, ∀ raw ∈ layout.members kind, raw.Plain layout.constants

/-! ### Decoders with a backdrop -/

/-- The decoder goes through a class file with this pool, and this is the backdrop of what it has on
record. -/
structure Decoder.Backs (pool : Pool) (backdrop : Option Record) (s : Decoder) : Prop where
  pool : s.pool.Like pool
  record : s.record.map Record.backdrop = backdrop

namespace Decode

open Decoder

variable {namer : Namer} {pool : Pool} {backdrop : Option Record}

theorem lasting_backs (pool : Pool) (backdrop : Option Record) : Lasting (Backs pool backdrop) where
  bare {s t} h hbare :=
    { pool := like_of_bare hbare h.pool
      record := by
        rw [show t.record = s.record from (congrArg Decoder.record hbare :)]
        exact h.record }
  withInput _ h := ⟨h.pool, h.record⟩
  marked index h := ⟨(Pool.like_markReferred _ index).trans h.pool, h.record⟩

/-- The step does not touch the backdrop. -/
abbrev Backing (pool : Pool) (backdrop : Option Record) {α : Type} (m : Decode α) : Prop :=
  Keeps (Backs pool backdrop) (fun _ => True) m

theorem map_backs {s : Decoder} (hs : s.Backs pool backdrop) {f : Record → Record}
    (hf : ∀ record, (f record).backdrop = record.backdrop) :
    Backs pool backdrop { s with record := s.record.map f } := by
  refine ⟨hs.pool, ?_⟩
  rw [← hs.record]
  change (s.record.map f).map Record.backdrop = s.record.map Record.backdrop
  rw [Option.map_map]
  exact congrArg (Option.map · s.record) (funext hf)

theorem updateRecord_backs {f : Record → Record}
    (hf : ∀ record, (f record).backdrop = record.backdrop) :
    Backing pool backdrop (updateRecord f) :=
  .updateRecord trivial fun _ hs => map_backs hs hf

/-- A change of a member does not touch the backdrop, which has no members in it. -/
theorem besides_backs {m : Decode Unit} (hm : ∀ s, ∃ g, Record.Besides g ∧
    m s = .ok () { s with record := s.record.map g }) : Backing pool backdrop m := by
  intro s hs
  obtain ⟨g, hg, hrun⟩ := hm s
  rw [hrun]
  exact map_backs hs hg.backdrop

/-! ### Attributes -/

theorem annotating_backs :
    Annotating ⟨namer, none⟩ ⟨namer, none⟩ fun m _ => Backing pool backdrop m where
  toAsking := Lasting.asking _
  look hk := .look fun s => hk s s rfl
  tell _ := .modify fun _ hs => hs
  note type retention := updateRecord_backs fun record => by cases retention <;> rfl
  updateMember _ := besides_backs (updateMember_ok _)
  keepDefaultOf value := besides_backs (keepDefaultOf_ok value)
  take := (lasting_backs pool backdrop).take
  within := (lasting_backs pool backdrop).within

/-- An attribute that is not put on record of the class does not touch the backdrop, unless it
belongs to the class. -/
theorem attributeBody_backs {onCode : Decode Unit} {site : Site} {access : Access}
    {kind : AttributeKind} (hsite : site ≠ .type) (hkind : kind.ofClass = false)
    (hcode : kind = .code → Backing pool backdrop onCode) :
    Backing pool backdrop (attributeBody ⟨namer, none⟩ onCode site access kind) := by
  have hlasting := lasting_backs pool backdrop
  have hannotating : Annotating ⟨namer, none⟩ ⟨namer, none⟩ fun m _ => Backing pool backdrop m :=
    annotating_backs
  have hreferring : Referring ⟨namer, none⟩ ⟨namer, none⟩ fun m _ => Backing pool backdrop m :=
    hlasting.naming.referring
  refine @Annotating.attributeBody _ _ _ hannotating onCode onCode site access kind
    (fun retention _ => hlasting.annotationType retention access) (fun _ => ?_)
    (fun _ => hannotating.exceptionsAttribute fun index => hreferring.referClass index access) hcode
    (fun hclass => absurd hclass hsite) ?_ ?_ ?_
  · refine .bind hannotating.u2 fun index => ?_
    exact hannotating.signatureAt (hlasting.attempt index access)
      (fun hclass => absurd hclass hsite) fun _ => besides_backs (updateMember_ok _)
  all_goals
    rintro rfl
    exact absurd hkind (by decide)

theorem attributeOf_backs {onCode : Decode Unit} {site : Site} {access : Access}
    {raw : RawAttribute} (hsite : site ≠ .type) (hraw : ¬raw.OfClass pool)
    (hcode : pool.utf8 raw.name = .ok "Code" →
      Leads (Backs pool backdrop) (fun _ => Backs pool backdrop) (within raw.body onCode)) :
    Leads (Backs pool backdrop) (fun _ => Backs pool backdrop)
      (attributeOf ⟨namer, none⟩ onCode site access raw) := by
  intro s _ t hs hrun
  obtain ⟨text, _, hname, hbody⟩ := EStateM.ok_of_bind hrun
  obtain ⟨hname, rfl⟩ := ok_of_utf8 hname
  have hname := (Pool.Question.utf8 raw.name).ok_of_like hs.pool hname
  by_cases hkind : AttributeKind.ofName text = .code
  · rw [hkind] at hbody
    exact hcode (AttributeKind.name_of_code hkind ▸ hname) _ _ _ hs hbody
  · have hother : (AttributeKind.ofName text).ofClass = false :=
      eq_false_of_ne_true fun hclass => hraw ⟨text, hname, hclass⟩
    exact ((lasting_backs pool backdrop).within
      (attributeBody_backs hsite hother fun h => absurd h hkind)).leads _ _ _ hs hbody

theorem attributesOf_backs {onCode : Decode Unit} {site : Site} {access : Access}
    {raws : List RawAttribute} (hsite : site ≠ .type) (hraws : ∀ raw ∈ raws, ¬raw.OfClass pool)
    (hcode : ∀ raw ∈ raws, pool.utf8 raw.name = .ok "Code" →
      Leads (Backs pool backdrop) (fun _ => Backs pool backdrop) (within raw.body onCode)) :
    Leads (Backs pool backdrop) (fun _ => Backs pool backdrop)
      (attributesOf ⟨namer, none⟩ onCode site access raws) :=
  .forM fun raw hraw => attributeOf_backs hsite (hraws raw hraw) (hcode raw hraw)

/-- A method body that is not walked through. -/
theorem backs_nothing (body : Bytes) :
    Leads (Backs pool backdrop) (fun _ => Backs pool backdrop) (within body (pure ())) :=
  ((lasting_backs pool backdrop).within (.pure ())).leads

/-- A plain method body. -/
theorem within_code_backs {body : Bytes} (hplain : ∀ (code : RawCode) (rest : Bytes),
      RawCode.form.Fits code → body = RawCode.form.encode code ++ rest →
        ∀ inner ∈ code.attributes, ¬inner.OfClass pool) :
    Leads (Backs pool backdrop) (fun _ => Backs pool backdrop)
      (within body (code ⟨namer, none⟩)) := by
  have hlasting := lasting_backs pool backdrop
  have hwalking : Walking ⟨namer, none⟩ ⟨namer, none⟩ fun m _ => Backing pool backdrop m :=
    hlasting.walking
  refine leads_within (fun s input hs => hlasting.withInput input hs) (Parses.code _)
    fun code rest hfits hbody => .look fun s _ => ?_
  refine .bind (hwalking.walk s.targets code.code).leads fun _ => ?_
  refine .bind (.forM fun handler _ => (hlasting.constant handler.2).leads) fun _ => ?_
  exact attributesOf_backs (by decide) (hplain code rest hfits hbody) fun _ _ _ => backs_nothing _

/-! ### Members -/

theorem openMember_backs (kind : LastMember) (header : MemberHeader) :
    Backing pool backdrop (openMember ⟨namer, none⟩ kind header) := by
  have hnaming : Naming ⟨namer, none⟩ ⟨namer, none⟩ fun m _ => Backing pool backdrop m :=
    (lasting_backs pool backdrop).naming
  refine @Asking.openMember ⟨namer, none⟩ ⟨namer, none⟩ _ hnaming.toAsking kind header
    (hnaming.referDescriptor _ _) (fun _ => .modify fun _ hs => hs)
    (fun hf => updateRecord_backs hf.rest) (fun _ _ => ?_) ?_
  · exact .modify fun _ hs => ⟨hs.pool, hs.record⟩
  · exact .modify fun _ hs => ⟨hs.pool, hs.record⟩

/-- **A plain member leaves the backdrop as it is.** What is left of a record there is said by the
class itself, and by attributes that no plain member has. -/
theorem memberOf_backs {kind : LastMember} {raw : RawMember} (hplain : raw.Plain pool) :
    Leads (Backs pool backdrop) (fun _ => Backs pool backdrop)
      (memberOf ⟨namer, none⟩ kind raw) := by
  rw [memberOf_eq]
  refine .bind ((Lasting.asking _).memberHeaderOf raw).leads fun header => ?_
  refine .bind (openMember_backs kind header).leads fun _ => ?_
  have hattributes {onCode : Decode Unit} {site : Site} (hsite : site ≠ .type)
      (hcode : ∀ inner ∈ raw.attributes, pool.utf8 inner.name = .ok "Code" →
        Leads (Backs pool backdrop) (fun _ => Backs pool backdrop) (within inner.body onCode)) :=
    @attributesOf_backs namer pool backdrop onCode site header.access raw.attributes hsite
      (fun inner hinner => (hplain inner hinner).outside) hcode
  cases kind with
  | field => exact hattributes (by decide) fun _ _ _ => backs_nothing _
  | method =>
    refine .look fun s _ => ?_
    dsimp only
    refine hattributes (by split <;> decide) fun inner hinner hname => ?_
    split
    · exact within_code_backs ((hplain inner hinner).inside hname)
    · exact backs_nothing _

end Decode

end ClassFile
