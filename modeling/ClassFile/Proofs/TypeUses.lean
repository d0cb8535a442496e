import ClassFile.Layout.TypeUses
import ClassFile.Proofs.Findings
import ClassFile.Proofs.Values

/-!
# Annotations on uses of types are read as they were written

The kind of a use says how much tells it from other uses of its kind, and only with the right width
for each kind are the annotations behind the first one found where they stand. What a list of
annotations brings is known of annotations as they are read
(`ClassFile.Decode.Noticing.typeAnnotationsOf`); here it is carried over to uses as they are written
(`ClassFile.TypeUse.form`).
-/

namespace ClassFile

/-! ### Uses -/

namespace TypeTarget

theorem length_encode_rows (rows : List (UInt16 × UInt16 × UInt16)) :
    (rows.flatMap rowForm.encode).length = rows.length * 6 :=
  Form.length_flatMap_encode (fun _ => rfl) rows

/-- What tells a use from others of its kind is as long as the kind says. -/
theorem fits_info {target : TypeTarget} (h : target.Fits) :
    (targetForm target.kind).Fits target.info := by
  have hfixed (kind : UInt8) {info : Bytes} (hkind : ¬(kind.toNat = 0x40 ∨ kind.toNat = 0x41))
      (hwidth : some info.length = targetWidth? kind) : (targetForm kind).Fits info :=
    (if_neg hkind).mpr hwidth
  cases target with
  | typeParameter ofMethod parameter =>
    cases ofMethod with
    | false => exact hfixed 0x00 (by decide) rfl
    | true => exact hfixed 0x01 (by decide) rfl
  | supertype => exact hfixed 0x10 (by decide) rfl
  | bound ofMethod parameter number =>
    cases ofMethod with
    | false => exact hfixed 0x11 (by decide) rfl
    | true => exact hfixed 0x12 (by decide) rfl
  | declared use =>
    have hkinds : ∀ use : Fin 3, (let kind := UInt8.ofNat (0x13 + use)
        ¬(kind.toNat = 0x40 ∨ kind.toNat = 0x41) ∧ some 0 = targetWidth? kind) := by decide
    exact hfixed _ (hkinds use).1 (hkinds use).2
  | formalParameter => exact hfixed 0x16 (by decide) rfl
  | thrown => exact hfixed 0x17 (by decide) rfl
  | localVariable isResource rows =>
    have hkind : (if isResource then 0x41 else 0x40 : UInt8).toNat = 0x40 ∨
        (if isResource then 0x41 else 0x40 : UInt8).toNat = 0x41 := by
      cases isResource <;> decide
    exact (if_pos hkind).mpr ⟨rows.length, _, h.1, length_encode_rows rows, rfl⟩
  | caught => exact hfixed 0x42 (by decide) rfl
  | instruction use offset =>
    have hkinds : ∀ use : Fin 4, (let kind := UInt8.ofNat (0x43 + use)
        ¬(kind.toNat = 0x40 ∨ kind.toNat = 0x41) ∧ some 2 = targetWidth? kind) := by decide
    exact hfixed _ (hkinds use).1 (hkinds use).2
  | argument use offset number =>
    have hkinds : ∀ use : Fin 5, (let kind := UInt8.ofNat (0x47 + use)
        ¬(kind.toNat = 0x40 ∨ kind.toNat = 0x41) ∧ some 3 = targetWidth? kind) := by decide
    exact hfixed _ (hkinds use).1 (hkinds use).2

/-- The numbers of the kinds lie in three ranges without gaps. -/
theorem exists_of_kind {n : Nat} (h : n ≤ 0x01 ∨ 0x10 ≤ n ∧ n ≤ 0x17 ∨ 0x40 ≤ n ∧ n ≤ 0x4B) :
    ∃ target : TypeTarget, target.kind = .ofNat n := by
  have hcases : n = 0x00 ∨ n = 0x01 ∨ n = 0x10 ∨ n = 0x11 ∨ n = 0x12 ∨ n - 0x13 < 3 ∧ 0x13 ≤ n ∨
      n = 0x16 ∨ n = 0x17 ∨ n = 0x40 ∨ n = 0x41 ∨ n = 0x42 ∨ n - 0x43 < 4 ∧ 0x43 ≤ n ∨
        n - 0x47 < 5 ∧ 0x47 ≤ n := by
    omega
  rcases hcases with rfl | rfl | rfl | rfl | rfl | ⟨huse, hle⟩ | rfl | rfl | rfl | rfl | rfl |
    ⟨huse, hle⟩ | ⟨huse, hle⟩
  · exact ⟨.typeParameter false 0, rfl⟩
  · exact ⟨.typeParameter true 0, rfl⟩
  · exact ⟨.supertype 0, rfl⟩
  · exact ⟨.bound false 0 0, rfl⟩
  · exact ⟨.bound true 0 0, rfl⟩
  · exact ⟨.declared ⟨n - 0x13, huse⟩, congrArg UInt8.ofNat (Nat.add_sub_cancel' hle)⟩
  · exact ⟨.formalParameter 0, rfl⟩
  · exact ⟨.thrown 0, rfl⟩
  · exact ⟨.localVariable false [], rfl⟩
  · exact ⟨.localVariable true [], rfl⟩
  · exact ⟨.caught 0, rfl⟩
  · exact ⟨.instruction ⟨n - 0x43, huse⟩ 0, congrArg UInt8.ofNat (Nat.add_sub_cancel' hle)⟩
  · exact ⟨.argument ⟨n - 0x47, huse⟩ 0 0, congrArg UInt8.ofNat (Nat.add_sub_cancel' hle)⟩

/-- A byte that is the kind of no use is at fault, whatever comes behind it. -/
theorem typeTargetWidth_of_unknown {byte : UInt8} (h : ∀ target : TypeTarget, target.kind ≠ byte) :
    Decode.typeTargetWidth byte = throw (.typeTarget byte) := by
  have hout : ¬(byte.toNat ≤ 0x01 ∨ 0x10 ≤ byte.toNat ∧ byte.toNat ≤ 0x17 ∨
      0x40 ≤ byte.toNat ∧ byte.toNat ≤ 0x4B) := by
    intro hin
    obtain ⟨target, htarget⟩ := exists_of_kind hin
    exact h target (htarget.trans UInt8.ofNat_toNat)
  rw [Decode.typeTargetWidth, if_neg (by omega), if_neg (by omega), if_neg (by omega),
    if_neg (by omega), if_neg (by omega), if_neg (by omega)]

end TypeTarget

/-! ### Annotations that are well formed -/

/-- A value that stands for one fits the format, with levels enough. -/
theorem RawValue.StandsFor.fits {pool : Pool} {site : Site} {retention : Retention} {levels : Nat}
    {raw : RawValue} {found : Value} (h : raw.StandsFor pool site retention found)
    (hdepth : raw.depth < levels) : (form levels).Fits raw := by
  induction levels generalizing raw found with
  | zero => exact absurd hdepth (Nat.not_lt_zero _)
  | succ levels ih =>
    cases h with
    | @constant tag index entry _ hentry hvalue =>
      change isConstantTag (Char.ofNat tag.toNat) = true
      generalize Char.ofNat tag.toNat = letter at hvalue
      unfold ofEntry at hvalue
      split at hvalue <;> first | rfl | cases hvalue
    | enumConstant | classLiteral => trivial
    | @nested index type elements given htype hcount hnames helements =>
      have hinside := depthOfElements_le_iff.1 (Nat.le_of_lt_succ hdepth)
      have hfits := ((List.forall₂_and_left _ _).1 (helements.imp fun element _ hstands =>
        ⟨fun hlt : element.2.depth < levels => ih hstands hlt, hstands⟩)).1
      exact ⟨hcount, fun element hmem => ⟨trivial, hfits element hmem (hinside element hmem)⟩⟩
    | @array raws values hcount hvalues =>
      have hinside := depthOfValues_le_iff.1 (Nat.le_of_lt_succ hdepth)
      have hfits := ((List.forall₂_and_left _ _).1 (hvalues.imp fun value _ hstands =>
        ⟨fun hlt : value.depth < levels => ih hstands hlt, hstands⟩)).1
      exact ⟨hcount, fun value hmem => hfits value hmem (hinside value hmem)⟩

namespace RawAnnotation.WellFormed

variable {pool : Pool} {site : Site} {retention : Retention} {raw : RawAnnotation}

theorem depth_lt (h : raw.WellFormed pool site retention) :
    (RawValue.nested raw.type raw.elements).depth < nestingLimit + 1 + 1 :=
  Nat.lt_succ_of_le (RawValue.depthOfElements_le_iff.2 fun element hmem =>
    Nat.lt_succ_of_le (h.2 element hmem))

/-- An annotation that is well formed fits the format. -/
theorem fits (h : raw.WellFormed pool site retention) : RawAnnotation.outerForm.Fits raw := by
  obtain ⟨found, hstands⟩ := h.1
  exact RawValue.StandsFor.fits hstands h.depth_lt

theorem encode_outerForm (h : raw.WellFormed pool site retention) :
    RawAnnotation.outerForm.encode raw = RawAnnotation.wholeForm.encode raw := by
  have hdepth (value : RawValue)
      (hvalue : value.depth < (RawValue.nested raw.type raw.elements).depth) :
      value.depth < nestingLimit + 1 :=
    Nat.lt_of_lt_of_le hvalue (Nat.le_of_lt_succ h.depth_lt)
  exact RawValue.encode_tail_congr fun value hvalue => RawValue.encode_form (hdepth value hvalue)

end RawAnnotation.WellFormed

/-- What can be read of bytes is read wherever they stand. -/
theorem Decode.Reads.of_parses {α ρ : Type} {form : Form ρ} {a : α} {m : Decode α} {pool : Pool}
    {raw : ρ} (h : Parses form (fun _ => Pure.pure a) m) (hfits : form.Fits raw) :
    Reads pool (form.encode raw) (.ok a) m := by
  intro offset rest s hs
  refine ⟨{ s with input := ⟨offset + (form.encode raw).length, rest⟩ }, ?_, hs.pool_eq, rfl,
    hs.isSome_record⟩
  refine (h.eq_ok_iff s a _).2 ⟨raw, rest, hfits, ?_, ?_⟩
  · rw [hs.input_eq]
  · rw [hs.input_eq]
    rfl

/-! ### Annotations with their uses -/

namespace TypeUse

variable {pool : Pool} {site : Site} {retention : Retention} {use : TypeUse}

theorem length_path (path : List (UInt8 × UInt8)) :
    (path.flatMap stepForm.encode).length = path.length * 2 :=
  Form.length_flatMap_encode (fun _ => rfl) path

theorem fits_raw (hfits : form.Fits use) (h : use.annotation.WellFormed pool site retention) :
    RawTypeAnnotation.form.Fits use.raw :=
  ⟨TypeTarget.fits_info hfits.1, ⟨use.path.length, hfits.2.1, length_path use.path⟩, h.fits⟩

theorem encode_raw (h : use.annotation.WellFormed pool site retention) :
    RawTypeAnnotation.form.encode use.raw = form.encode use := by
  have hlength : (use.path.flatMap stepForm.encode).length / 2 = use.path.length := by
    rw [length_path, Nat.mul_div_cancel _ Nat.two_pos]
  change Form.u1.encode use.target.kind ++ (use.target.info ++ (Bytes.bigEndian 1
    ((use.path.flatMap stepForm.encode).length / 2) ++ (use.path.flatMap stepForm.encode ++
      RawAnnotation.outerForm.encode use.annotation))) = _
  rw [hlength, h.encode_outerForm, ← List.append_assoc (Bytes.bigEndian 1 _)]
  rfl

variable {uses : List TypeUse}

theorem fits_raws (hfits : ∀ use ∈ uses, form.Fits use)
    (hformed : ∀ use ∈ uses, use.annotation.WellFormed pool site retention) :
    (Form.times uses.length RawTypeAnnotation.form).Fits (uses.map raw) :=
  ⟨List.length_map _, List.forall_mem_map.2 fun use huse =>
    fits_raw (hfits use huse) (hformed use huse)⟩

theorem encode_raws (hformed : ∀ use ∈ uses, use.annotation.WellFormed pool site retention) :
    (Form.times uses.length RawTypeAnnotation.form).encode (uses.map raw) =
      uses.flatMap form.encode :=
  (List.flatMap_map ..).trans (List.flatMap_congr fun use huse => encode_raw (hformed use huse))

end TypeUse

namespace Decode

open Decoder

variable {c : Context} {site : Site} {retention : Retention} {access : Access}

/-- What is done with an annotation that is well formed succeeds. -/
theorem outerAnnotationOf_succeeds {s : Decoder} {raw : RawAnnotation}
    (hrecord : s.record.isSome = true) (h : raw.WellFormed s.pool site retention) :
    ∃ found t, outerAnnotationOf c site retention access raw s = .ok found t := by
  obtain ⟨found, hstands⟩ := h.1
  have hparses : Parses RawAnnotation.outerForm (outerAnnotationOf c site retention access)
      (Decode.outerAnnotation c site retention access) := Parses.annotationOutside
  have hreads : Reads s.pool (Form.encode RawAnnotation.wholeForm raw)
      (bounded (nestingLimit + 1) (RawValue.depthOfElements raw.elements) found)
      (Decode.outerAnnotation c site retention access) := Reads.outerAnnotation hstands
  let front : Decoder := { s with input := ⟨0, RawAnnotation.wholeForm.encode raw ++ []⟩ }
  obtain ⟨t, hrun, -⟩ := (hreads.taken (s := front) hrecord rfl).1 (Nat.le_of_lt_succ h.depth_lt)
  -- it was read, so what is done with what was read of the bytes has succeeded, and that is `raw`
  obtain ⟨raw', rest, hfits, hfront, hact⟩ := (hparses.eq_ok_iff front found t).1 hrun
  have hdistinct := Form.Distinct.annotation (.value (nestingLimit + 1))
  obtain ⟨rfl, -⟩ := hdistinct h.fits hfits
    ((congrArg (· ++ []) h.encode_outerForm).trans hfront)
  exact ⟨found, _, ok_of_unfed (hparses.unfed raw h.fits) hact s.input⟩

end Decode

/-! ### What is found -/

namespace Record.Finds

variable {pool : Pool} {retention : Retention} {indices : UInt16 → Prop} {before after : Record}

theorem refl (before : Record) : before.Finds pool retention (fun _ => False) before where
  types type := by simp
  retained other := by simp
  others := rfl

/-- One more annotation is found. -/
theorem note (h : before.Finds pool retention indices after) {index : UInt16} {text : String}
    (htext : pool.utf8 index = .ok text) :
    before.Finds pool retention (fun other => indices other ∨ other = index)
      (after.note (.ofText text) retention) where
  types type := by
    have hhas : type ∈ (after.note (.ofText text) retention).annotationTypes ↔
        type ∈ after.annotationTypes ∨ Trait.annotated type = .annotated (.ofText text) ∨
          Trait.annotated type = .retained retention :=
      @has_note (.ofText text) retention after (.annotated type)
    have hnew : (∃ other text', (indices other ∨ other = index) ∧ pool.utf8 other = .ok text' ∧
        type = .ofText text') ↔
        (∃ other text', indices other ∧ pool.utf8 other = .ok text' ∧ type = .ofText text') ∨
          type = .ofText text := by
      constructor
      · rintro ⟨other, text', hindex | rfl, htext', htype⟩
        · exact .inl ⟨other, text', hindex, htext', htype⟩
        · cases htext.symm.trans htext'
          exact .inr htype
      · rintro (⟨other, text', hindex, htext', htype⟩ | htype)
        · exact ⟨other, text', .inl hindex, htext', htype⟩
        · exact ⟨index, text, .inr rfl, htext, htype⟩
    rw [hhas, h.types, hnew]
    simp [or_assoc]
  retained other := by
    rw [retains_note, h.retained other]
    have hsome : ∃ other, indices other ∨ other = index := ⟨index, .inr rfl⟩
    simp only [hsome, true_and]
    tauto
  others := by
    rw [h.others]
    cases retention <;> rfl

end Record.Finds

/-- The decoder has this pool, and since a record was as it was before, these annotations were found
and nothing else. -/
structure Decoder.Records (pool : Pool) (retention : Retention) (before : Record)
    (indices : UInt16 → Prop) (s : Decoder) : Prop where
  pool_eq : s.pool = pool
  finds : ∃ after, s.record = some after ∧ before.Finds pool retention indices after

namespace Decoder.Records

variable {pool : Pool} {retention : Retention} {before : Record} {indices : UInt16 → Prop}
  {s t : Decoder}

theorem isSome_record (h : s.Records pool retention before indices) : s.record.isSome = true := by
  obtain ⟨after, hafter, -⟩ := h.finds
  rw [hafter]
  rfl

theorem of_ground (h : t.ground = s.ground) (hs : s.Records pool retention before indices) :
    t.Records pool retention before indices := by
  obtain ⟨-, hrest⟩ := Prod.mk.inj h
  obtain ⟨hpool, hrecord⟩ := Prod.mk.inj hrest
  exact ⟨hpool.trans hs.pool_eq, hrecord ▸ hs.finds⟩

end Decoder.Records

namespace Decode

open Decoder

variable {c : Context} {site : Site} {retention : Retention} {access : Access} {pool : Pool}
  {before : Record} {indices : UInt16 → Prop}

/-- An annotation is noted down, and whatever is referred to is not. -/
theorem noticing_records (c : Context) (pool : Pool) (retention : Retention) (before : Record) :
    Noticing c (Records pool retention before) retention fun index other => other = index where
  note {indices index text s} hs htext := by
    obtain ⟨hpool, after, hafter, hfinds⟩ := hs
    refine ⟨hpool, after.note (.ofText text) retention, ?_, hfinds.note (hpool ▸ htext)⟩
    rw [hafter]
    rfl
  annotationType access index := by
    have hnaming (indices : UInt16 → Prop) :
        Naming c c fun m _ => Keeps (Records pool retention before indices) (fun _ => True) m :=
      { toAsking := Lasting.asking _
        named := fun _ => Keeps.tell .of_ground _
        refer := fun type access => Keeps.refer .of_ground type access }
    exact .of_keeps fun indices => (hnaming indices).annotationType
      (fun type access => Keeps.expose .of_ground type access) retention access index

/-! ### A list of annotations -/

/-- An annotation on a use of a type. -/
def typeAnnotation (c : Context) (site : Site) (retention : Retention) (access : Access) :
    Decode Unit := do
  let width ← typeTargetWidth (← read Input.u1)
  read (Input.skip width)
  let path ← read Input.u1
  read (Input.skip (path.toNat * 2))
  let _ ← outerAnnotation c site retention access

theorem repeated_add (m n : Nat) (step : Decode Unit) :
    repeated (m + n) step = repeated m step >>= fun _ => repeated n step := by
  induction m with
  | zero => rw [Nat.zero_add, repeated, pure_bind]
  | succ m ih => rw [Nat.succ_add, repeated, repeated, ih, bind_assoc]

/-- What is done with annotations that are well formed succeeds. -/
theorem typeAnnotationsOf_succeeds {uses : List TypeUse}
    (hformed : ∀ use ∈ uses, use.annotation.WellFormed pool site retention) {s : Decoder}
    (hs : s.Records pool retention before indices) :
    ∃ t, typeAnnotationsOf c site retention access (uses.map TypeUse.raw) s = .ok () t := by
  induction uses generalizing s indices with
  | nil => exact ⟨s, rfl⟩
  | cons use uses ih =>
    obtain ⟨huse, huses⟩ := List.forall_mem_cons.1 hformed
    rw [← hs.pool_eq] at huse
    obtain ⟨found, u, hrun⟩ := @outerAnnotationOf_succeeds c site retention access s _
      hs.isSome_record huse
    have hu := (noticing_records c pool retention before).outerAnnotationOf
      use.annotation _ s found u hs hrun
    obtain ⟨t, hrest⟩ := ih huses hu
    exact ⟨t, EStateM.bind_eq (EStateM.bind_eq hrun rfl) hrest⟩

theorem noted_raws (uses : List TypeUse) (index : UInt16) :
    (∃ raw ∈ uses.map TypeUse.raw, Noticing.Noted (fun index other => other = index)
      (fun index => raw.annotation.Includes index) index) ↔
      ∃ use ∈ uses, use.annotation.Includes index := by
  simp only [Noticing.Noted, exists_eq_right', List.mem_map]
  constructor
  · rintro ⟨_, ⟨use, huse, rfl⟩, hindex⟩
    exact ⟨use, huse, hindex⟩
  · rintro ⟨use, huse, hindex⟩
    exact ⟨_, ⟨use, huse, rfl⟩, hindex⟩

/-- **Annotations are read one after the other**, each behind its use, and all of them are found. -/
theorem typeAnnotation_repeated {uses : List TypeUse} (hfits : ∀ use ∈ uses, TypeUse.form.Fits use)
    (hformed : ∀ use ∈ uses, use.annotation.WellFormed pool site retention) {s : Decoder}
    (hs : s.Records pool retention before indices) {rest : Bytes}
    (hinput : s.input.rest = uses.flatMap TypeUse.form.encode ++ rest) :
    ∃ t, repeated uses.length (Decode.typeAnnotation c site retention access) s = .ok () t ∧
      t.input = ⟨s.input.offset + (uses.flatMap TypeUse.form.encode).length, rest⟩ ∧
      t.Records pool retention before fun index =>
        indices index ∨ ∃ use ∈ uses, use.annotation.Includes index := by
  have hparses : Parses (Form.times uses.length RawTypeAnnotation.form)
      (typeAnnotationsOf c site retention access)
      (repeated uses.length (Decode.typeAnnotation c site retention access)) :=
    Parses.typeAnnotation.repeated uses.length
  have hraws := TypeUse.fits_raws hfits hformed
  have hencode := TypeUse.encode_raws hformed
  -- what is done with the annotations takes place behind all of them, since it reads no more bytes
  let behind : Decoder := { s with
    input := ⟨s.input.offset + (uses.flatMap TypeUse.form.encode).length, rest⟩ }
  have hbehind : behind.Records pool retention before indices := ⟨hs.pool_eq, hs.finds⟩
  obtain ⟨t, hrun⟩ := @typeAnnotationsOf_succeeds c site retention access _ _ _ uses
    hformed behind hbehind
  refine ⟨t, (hparses.eq_ok_iff s () t).2 ⟨_, rest, hraws, ?_, ?_⟩, ?_, ?_⟩
  · rw [hinput, hencode]
  · rw [hencode]
    exact hrun
  · exact input_of_unfed (hparses.unfed _ hraws) hrun
  · have hall := (noticing_records c pool retention before).typeAnnotationsOf (uses.map TypeUse.raw)
      indices behind () t hbehind hrun
    simp only [noted_raws] at hall
    exact hall

/-- A kind that no use has is at fault where it stands. -/
theorem typeAnnotation_unknown {byte : UInt8} (hbyte : ∀ target : TypeTarget, target.kind ≠ byte)
    {s : Decoder} {rest : Bytes} (hinput : s.input.rest = byte :: rest) :
    typeAnnotation c site retention access s =
      .error (.typeTarget byte) { s with input := ⟨s.input.offset + 1, rest⟩ } := by
  have hencode : Form.u1.encode byte = [byte] := congrArg (fun last => [last]) UInt8.ofNat_toNat
  have hread : read Input.u1 s = .ok byte { s with input := ⟨s.input.offset + 1, rest⟩ } := by
    refine (Parses.u1.eq_ok_iff s byte _).2 ⟨byte, rest, trivial, ?_, ?_⟩
    · rw [hinput, hencode]
      rfl
    · rw [hencode]
      rfl
  refine EStateM.bind_eq hread ?_
  rw [TypeTarget.typeTargetWidth_of_unknown hbyte]
  rfl

theorem target_reads {target : TypeTarget} (h : target.Fits) :
    Reads pool target.info (.ok ())
      (typeTargetWidth target.kind >>= fun width => read (Input.skip width)) :=
  .of_parses (Parses.target target.kind) (TypeTarget.fits_info h)

theorem path_reads {path : List (UInt8 × UInt8)} (h : path.length < UInt8.size) :
    Reads pool (TypeUse.stepForm.shortTable.encode path) (.ok ())
      (read Input.u1 >>= fun steps => read (Input.skip (steps.toNat * 2))) := by
  have hcount := UInt8.toNat_ofNat_of_lt' h
  have hencode : TypeUse.stepForm.shortTable.encode path =
      Form.u1.encode (.ofNat path.length) ++ path.flatMap TypeUse.stepForm.encode :=
    congrArg (Bytes.bigEndian 1 · ++ _) hcount.symm
  have hsteps := (TypeUse.length_path path).trans (congrArg (· * 2) hcount.symm)
  rw [hencode]
  exact (Reads.u1 _).bind (.read fun _ => .skip hsteps)

/-- With more levels than may be entered, what is found does not matter. -/
theorem outerAnnotation_tooDeep {raw : RawAnnotation} {found : Annotation}
    (h : raw.StandsFor pool site retention found)
    (hdeep : ∃ element ∈ raw.elements, nestingLimit < element.2.depth) :
    Reads pool (Form.encode RawAnnotation.wholeForm raw) (.error .valueNesting)
      (Decode.outerAnnotation c site retention access) := by
  obtain ⟨element, hmem, hlevels⟩ := hdeep
  have hmore : nestingLimit + 1 < RawValue.depthOfElements raw.elements :=
    Nat.not_le.1 fun hle =>
      absurd (RawValue.depthOfElements_le_iff.1 hle element hmem) (Nat.not_lt.2 hlevels)
  have hall : Reads pool (Form.encode RawAnnotation.wholeForm raw) (bounded _ _ found)
    (Decode.outerAnnotation c site retention access) := Reads.outerAnnotation h
  rwa [bounded_of_lt hmore] at hall

/-- An annotation with more levels than may be entered is at fault, behind whichever use. -/
theorem typeAnnotation_tooDeep {use : TypeUse} (hfits : TypeUse.form.Fits use)
    (hstands : ∃ found, use.annotation.StandsFor pool site retention found)
    (hdeep : ∃ element ∈ use.annotation.elements, nestingLimit < element.2.depth) {s : Decoder}
    (hs : s.Records pool retention before indices) {rest : Bytes}
    (hinput : s.input.rest = TypeUse.form.encode use ++ rest) :
    ∃ t, typeAnnotation c site retention access s = .error .valueNesting t := by
  obtain ⟨found, hstands⟩ := hstands
  -- the use in front is read without fault
  have hparts : typeAnnotation c site retention access = (do
      let kind ← read Input.u1
      typeTargetWidth kind >>= fun width => read (Input.skip width)
      read Input.u1 >>= fun steps => read (Input.skip (steps.toNat * 2))
      let _ ← outerAnnotation c site retention access) := by
    simp only [bind_assoc, typeAnnotation]
  have hall : Reads pool (TypeUse.form.encode use ++ []) (.error .valueNesting)
      (Decode.typeAnnotation c site retention access) := by
    rw [hparts, TypeUse.form, List.append_assoc, List.append_assoc, List.append_assoc]
    exact (Reads.u1 _).bind ((target_reads hfits.1).bind ((path_reads hfits.2.1).bind
      ((outerAnnotation_tooDeep hstands hdeep).bind_error [])))
  rw [List.append_nil] at hall
  exact hall s.input.offset rest s ⟨hs.pool_eq, by rw [← hinput], hs.isSome_record⟩

theorem count_of_front {n : Nat} (hn : n < UInt16.size) {s : Decoder} {rest : Bytes}
    (hinput : s.input.rest = Form.count.encode n ++ rest) :
    count s = .ok n { s with input := ⟨s.input.offset + 2, rest⟩ } := by
  refine (Parses.count.eq_ok_iff s n _).2 ⟨n, rest, hn, hinput, ?_⟩
  rw [Form.count, Bytes.length_bigEndian]
  rfl

/-- The number of annotations is read, and then those in front, if they are well formed. -/
theorem typeAnnotations_front {uses : List TypeUse} (hfits : ∀ use ∈ uses, TypeUse.form.Fits use)
    {s : Decoder} (hrecord : s.record = some before)
    (hformed : ∀ use ∈ uses, use.annotation.WellFormed s.pool site retention) {n : Nat}
    (hn : n < UInt16.size) {rest : Bytes}
    (hinput : s.input.rest = Form.count.encode n ++ (uses.flatMap TypeUse.form.encode ++ rest)) :
    ∃ u t, count s = .ok n u ∧
      repeated uses.length (Decode.typeAnnotation c site retention access) u = .ok () t ∧
      t.input = ⟨s.input.offset + 2 + (uses.flatMap TypeUse.form.encode).length, rest⟩ ∧
      t.Records s.pool retention before fun index => ∃ use ∈ uses,
        use.annotation.Includes index := by
  let u : Decoder := { s with
    input := ⟨s.input.offset + 2, uses.flatMap TypeUse.form.encode ++ rest⟩ }
  have hu : u.Records s.pool retention before fun _ => False := ⟨rfl, before, hrecord, .refl before⟩
  obtain ⟨t, hrun, ht, hrecords⟩ :=
    @typeAnnotation_repeated c site retention access _ _ _ uses hfits hformed u hu rest rfl
  simp only [false_or] at hrecords
  exact ⟨u, t, count_of_front hn hinput, hrun, ht, hrecords⟩

/-- The fault of the first annotation that is at fault is that of the list. -/
theorem typeAnnotations_error {m n : Nat} {fault : Fault} {s u t v : Decoder} (hlt : m < n)
    (hcount : count s = .ok n u)
    (hrun : repeated m (Decode.typeAnnotation c site retention access) u = .ok () t)
    (hnext : typeAnnotation c site retention access t = .error fault v) :
    typeAnnotations c site retention access s = .error fault v := by
  obtain ⟨k, rfl⟩ := Nat.exists_eq_add_of_lt hlt
  refine EStateM.bind_eq hcount ?_
  change repeated (m + (k + 1)) (Decode.typeAnnotation c site retention access) u = _
  rw [repeated_add]
  exact EStateM.bind_eq hrun (EStateM.bind_of_error hnext)

/-- **Annotations on uses of types are read as they were written.** Once the header of a class is
known, a list of annotations that are well formed, each behind its use, is read up to its end,
whatever stands there. Their types and those of the annotations in them are found, and if there are
any, that there are annotations of the retention; nothing else is put on record, for the class or
for a member. Where a kind stands instead that no use has, the decoding fails just behind it, and
those in front have been found. It also fails at an annotation with more levels than may be
entered. -/
theorem typeAnnotations_written (c : Context) (site : Site)
    (retention : Retention) (access : Access)
    {s : Decoder} {before : Record} (hrecord : s.record = some before) {uses : List TypeUse}
    (hfits : ∀ use ∈ uses, TypeUse.form.Fits use)
    (hformed : ∀ use ∈ uses, use.annotation.WellFormed s.pool site retention) :
    let found := fun index => ∃ use ∈ uses, use.annotation.Includes index
    (∀ rest, uses.length < UInt16.size → s.input.rest = TypeUse.form.table.encode uses ++ rest →
      ∃ t after, typeAnnotations c site retention access s = .ok () t ∧
        t.input = ⟨s.input.offset + (TypeUse.form.table.encode uses).length, rest⟩ ∧
        t.record = some after ∧ before.Finds s.pool retention found after ∧
        (after.retains retention = true ↔ before.retains retention = true ∨ uses ≠ [])) ∧
    (∀ n byte rest, uses.length < n → n < UInt16.size →
      (∀ target : TypeTarget, target.kind ≠ byte) →
      s.input.rest = Form.count.encode n ++ (uses.flatMap TypeUse.form.encode ++ byte :: rest) →
      ∃ t after, typeAnnotations c site retention access s = .error (.typeTarget byte) t ∧
        (Fault.typeTarget byte).kind = .format ∧
        t.input = ⟨s.input.offset + 2 + (uses.flatMap TypeUse.form.encode).length + 1, rest⟩ ∧
        t.record = some after ∧ before.Finds s.pool retention found after) ∧
    ∀ n deep rest, uses.length < n → n < UInt16.size → TypeUse.form.Fits deep →
      (∃ given, deep.annotation.StandsFor s.pool site retention given) →
      (∃ element ∈ deep.annotation.elements, nestingLimit < element.2.depth) →
      s.input.rest = Form.count.encode n ++ (uses.flatMap TypeUse.form.encode ++
        (TypeUse.form.encode deep ++ rest)) →
      ∃ t, typeAnnotations c site retention access s = .error .valueNesting t ∧
        Fault.valueNesting.kind = .limit := by
  intro found
  refine ⟨fun rest hlength hinput => ?_, fun n byte rest hlength hn hbyte hinput => ?_,
    fun n deep rest hlength hn hdeepFits hstands hdeep hinput => ?_⟩
  · obtain ⟨u, t, hcount, hrun, ht, -, after, hafter, hfinds⟩ :=
      typeAnnotations_front hfits hrecord hformed hlength (hinput.trans (List.append_assoc ..))
    refine ⟨t, after, EStateM.bind_eq hcount hrun, ?_, hafter, hfinds, ?_⟩
    · rw [ht, Form.table, List.length_append, Form.count, Bytes.length_bigEndian, Nat.add_assoc]
    · -- an annotation is found by its own type, so something is found if there are any
      have hsome : (∃ index, found index) ↔ uses ≠ [] := by
        constructor
        · rintro ⟨_, use, huse, -⟩
          exact List.ne_nil_of_mem huse
        · intro hne
          obtain ⟨use, huse⟩ := List.exists_mem_of_ne_nil uses hne
          exact ⟨_, use, huse, use.annotation.includes_type⟩
      rw [hfinds.retained, hsome, and_iff_left rfl]
  · -- the kind is the first byte behind the annotations in front
    obtain ⟨u, t, hcount, hrun, ht, -, after, hafter, hfinds⟩ :=
      typeAnnotations_front hfits hrecord hformed hn hinput
    have hnext := @typeAnnotation_unknown c site retention access byte hbyte t rest (ht ▸ rfl)
    refine ⟨_, after, typeAnnotations_error hlength hcount hrun hnext, rfl, ?_, hafter, hfinds⟩
    rw [ht]
  · obtain ⟨u, t, hcount, hrun, ht, hrecords⟩ :=
      typeAnnotations_front hfits hrecord hformed hn hinput
    obtain ⟨v, hnext⟩ := @typeAnnotation_tooDeep c site retention access _ _ _
      deep hdeepFits hstands hdeep t hrecords rest (ht ▸ rfl)
    exact ⟨v, typeAnnotations_error hlength hcount hrun hnext, rfl⟩

/-- A byte between the kinds of declarations and those of method bodies is the kind of no use. -/
theorem kind_ne_of_gap (target : TypeTarget) : target.kind ≠ 0x18 := by
  cases target with
  | typeParameter ofMethod | bound ofMethod => cases ofMethod <;> exact nofun
  | localVariable isResource => cases isResource <;> exact nofun
  | supertype | formalParameter | thrown | caught => exact nofun
  | declared use =>
    have hkinds : ∀ use : Fin 3, UInt8.ofNat (0x13 + use) ≠ 0x18 := by decide
    exact hkinds use
  | instruction use =>
    have hkinds : ∀ use : Fin 4, UInt8.ofNat (0x43 + use) ≠ 0x18 := by decide
    exact hkinds use
  | argument use =>
    have hkinds : ∀ use : Fin 5, UInt8.ofNat (0x47 + use) ≠ 0x18 := by decide
    exact hkinds use

/-- A part of the type of a resource has an annotation, and that has another one as a value. Alone
it is read; in front of a byte that is no kind, it is found and the decoding fails. -/
theorem typeAnnotations_written_of_resource :
    let c : Context := ⟨.exact, some .passive⟩
    let use : TypeUse := ⟨.localVariable true [(0, 4, 1)], [(3, 0)], ⟨1, [(2, .nested 1 [])]⟩⟩
    let behind := [65, 0, 1, 0, 0, 0, 4, 0, 1, 1, 3, 0, 0, 1, 0, 1, 0, 2, 64, 0, 1, 0, 0]
    TypeUse.form.table.encode [use] = [0, 1] ++ behind ∧
      (∃ t after, typeAnnotations c .type .runtime 1
        (inFront ([0, 1] ++ behind ++ [255])) = .ok () t ∧
        t.input = ⟨25, [255]⟩ ∧ t.record = some after ∧ after.runtimeAnnotations = true) ∧
      ∃ t after, typeAnnotations c .type .runtime 1 (inFront ([0, 2] ++ behind ++ [0x18, 255])) =
        .error (.typeTarget 0x18) t ∧ t.input = ⟨26, [255]⟩ ∧ t.record = some after ∧
        ⟨"A"⟩ ∈ after.annotationTypes := by
  intro c use behind
  have hencode : TypeUse.form.encode use = behind := by decide +kernel
  have hstands : use.annotation.WellFormed (inFront []).pool .type .runtime := by
    have hinner : (RawValue.nested 1 []).StandsFor (inFront []).pool .type .runtime
        (.nested ⟨"A"⟩ .runtime .type <| Annotation.settle []) :=
      .nested ⟨"LA;", rfl, rfl, fun _ => by decide⟩ (show 0 < UInt16.size by decide) .nil .nil
    have hwhole : (RawValue.nested 1 [(2, .nested 1 [])]).StandsFor (inFront []).pool .type .runtime
        (.nested ⟨"A"⟩ .runtime .type <| Annotation.settle [("x", _)]) :=
      .nested ⟨"LA;", rfl, rfl, fun _ => by decide⟩ (show 1 < UInt16.size by decide)
        (.cons rfl .nil) (.cons hinner .nil)
    exact ⟨⟨⟨⟨"A"⟩, .runtime, .type, _⟩, hwhole⟩, List.forall_mem_singleton.2 (by decide)⟩
  have hfits : TypeUse.form.Fits use := by
    refine ⟨⟨show 1 < UInt16.size by decide, ?_⟩, show 1 < UInt8.size by decide, ?_⟩
    · exact List.forall_mem_singleton.2 ⟨trivial, trivial, trivial⟩
    · exact List.forall_mem_singleton.2 ⟨trivial, trivial⟩
  have hall (bytes : Bytes) := typeAnnotations_written c .type .runtime 1 (s := inFront bytes) rfl
    (List.forall_mem_singleton.2 hfits) (List.forall_mem_singleton.2 hstands)
  have htypes : ∃ index text, (∃ other ∈ [use], other.annotation.Includes index) ∧
      (inFront []).pool.utf8 index = .ok text ∧ (⟨"A"⟩ : TypeName) = .ofText text :=
    ⟨1, "LA;", ⟨use, List.mem_singleton_self _, use.annotation.includes_type⟩, rfl, rfl⟩
  obtain ⟨hread, -, -⟩ := hall ([0, 1] ++ behind ++ [255])
  obtain ⟨-, hunknown, -⟩ := hall ([0, 2] ++ behind ++ [0x18, 255])
  have htable : TypeUse.form.table.encode [use] = [0, 1] ++ behind := by
    have hcount : Form.count.encode 1 = [0, 1] := by decide
    change Form.count.encode 1 ++ [use].flatMap TypeUse.form.encode = _
    rw [hcount, List.flatMap_singleton, hencode]
  obtain ⟨t, after, hrun, hinput, hrecord, -, hretains⟩ := hread [255] (by decide)
    (congrArg (· ++ [255]) htable.symm)
  refine ⟨htable, ⟨t, after, hrun, ?_, hrecord, hretains.2 (.inr (List.cons_ne_nil _ _))⟩, ?_⟩
  · rw [hinput, htable]
    rfl
  obtain ⟨u, found, hfault, -, hinput, hrecord, hfinds⟩ :=
    hunknown 2 0x18 [255] (by decide) (by decide)
    kind_ne_of_gap (by rw [List.flatMap_singleton, hencode]; rfl)
  refine ⟨u, found, hfault, ?_, hrecord, (hfinds.types _).2 (.inr htypes)⟩
  rw [hinput, List.flatMap_singleton, hencode]
  rfl

/-- An annotation with 256 arrays inside of each other is well formed but for that, and is not read:
the values may nest no deeper than 255 levels. -/
theorem typeAnnotations_differs_of_tower :
    let deep : TypeUse := ⟨.declared 0, [], ⟨1, [(2, (tower 256).1)]⟩⟩
    let s := inFront (TypeUse.form.table.encode [deep])
    TypeUse.form.Fits deep ∧
      (∃ given, deep.annotation.StandsFor s.pool .type .runtime given) ∧
      ∃ t, typeAnnotations ⟨.exact, none⟩ .type .runtime 1 s = .error .valueNesting t := by
  intro deep s
  have hfits : TypeUse.form.Fits deep :=
    ⟨trivial, show 0 < UInt8.size by decide, List.forall_mem_nil _⟩
  have hstands : ∃ given, deep.annotation.StandsFor s.pool .type .runtime given := by
    refine ⟨⟨⟨"A"⟩, .runtime, .type, Annotation.settle [("x", (tower 256).2)]⟩, ?_⟩
    exact .nested ⟨"LA;", rfl, rfl, fun _ => by decide⟩ (show 1 < UInt16.size by decide)
      (.cons rfl .nil) (.cons (standsFor_tower _ _ _ 256) .nil)
  have hdeep : ∃ element ∈ deep.annotation.elements, nestingLimit < element.2.depth := by
    refine ⟨_, List.mem_singleton_self _, ?_⟩
    rw [depth_tower]
    decide
  refine ⟨hfits, hstands, ?_⟩
  let u : Decoder := { s with input := ⟨2, TypeUse.form.encode deep ++ []⟩ }
  have hu : u.Records s.pool .runtime (.header ⟨"B"⟩ 52 0 1) fun _ => False :=
    ⟨rfl, _, rfl, .refl _⟩
  obtain ⟨t, hrun⟩ := @typeAnnotation_tooDeep ⟨.exact, none⟩ .type .runtime 1 _ _
    _ deep hfits hstands hdeep u hu [] rfl
  have hbytes : s.input.rest = Form.count.encode 1 ++ (TypeUse.form.encode deep ++ []) := rfl
  have hcount : count s = .ok 1 u := count_of_front (show 1 < UInt16.size by decide) hbytes
  exact ⟨t, EStateM.bind_eq hcount (EStateM.bind_of_error hrun)⟩

end Decode

end ClassFile
