import ClassFile.Proofs.Layout

/-!
# Layouts are unambiguous

Every class file that is accepted is written from a layout; here it is shown that it is written
from one layout only. A form is *distinct* if the thing that was written can be told from the
bytes, and with it where it ends, whatever stands behind it (`ClassFile.Form.Distinct`). Numbers
have a fixed width, a table is preceded by the number of its elements, a body by its length, and
a pool by the number of its slots, so each form of a class file is distinct because its parts
are.

So to decode what is written from a layout is to act on that layout
(`ClassFile.Session.decode_encode_iff`).
-/

namespace ClassFile

namespace Form

variable {ρ σ : Type}

/-- What is written in the form can be read in one way only, whatever stands behind it. -/
def Distinct (form : Form ρ) : Prop :=
  ∀ ⦃raw raw' rest rest'⦄, form.Fits raw → form.Fits raw' →
    form.encode raw ++ rest = form.encode raw' ++ rest' → raw = raw' ∧ rest = rest'

namespace Distinct

/-- Things that are written with the same number of bytes, by which they can be told apart. -/
theorem of_width {form : Form ρ} (n : Nat)
    (hlength : ∀ raw, form.Fits raw → (form.encode raw).length = n)
    (hencode : ∀ raw raw', form.Fits raw → form.Fits raw' →
      form.encode raw = form.encode raw' → raw = raw') : form.Distinct := by
  intro raw raw' rest rest' hfits hfits' h
  have hsame : (form.encode raw).length = (form.encode raw').length := by
    rw [hlength raw hfits, hlength raw' hfits']
  obtain ⟨hbytes, hrest⟩ := List.append_inj h hsame
  exact ⟨hencode raw raw' hfits hfits' hbytes, hrest⟩

/-- A number is known from the bytes that it is written with, if it fits into them. -/
theorem number_inj (width : Nat) {m n : Nat} (hm : m < Nat.pow 256 width)
    (hn : n < Nat.pow 256 width) (h : Bytes.bigEndian width m = Bytes.bigEndian width n) :
    m = n := by
  rw [← Bytes.number_bigEndian hm, h, Bytes.number_bigEndian hn]

theorem bytes (n : Nat) : (Form.bytes n).Distinct :=
  of_width n (fun _ h => h) fun _ _ _ _ h => h

theorem u2 : Form.u2.Distinct := by
  refine of_width 2 (fun n _ => Bytes.length_bigEndian 2 n.toNat) fun m n _ _ h => ?_
  exact UInt16.toNat_inj.1 (number_inj 2 m.toNat_lt n.toNat_lt h)

theorem u4 : Form.u4.Distinct := by
  refine of_width 4 (fun n _ => Bytes.length_bigEndian 4 n.toNat) fun m n _ _ h => ?_
  exact UInt32.toNat_inj.1 (number_inj 4 m.toNat_lt n.toNat_lt h)

theorem count : Form.count.Distinct :=
  of_width 2 (fun n _ => Bytes.length_bigEndian 2 n) fun _ _ hm hn h => number_inj 2 hm hn h

/-- Two parts in a row can be told apart, if the first one can, and the second one can for each
first one. -/
theorem andThen {form : Form ρ} {next : ρ → Form σ} (h : form.Distinct)
    (hnext : ∀ raw, (next raw).Distinct) : (form.andThen next).Distinct := by
  rintro ⟨raw, then'⟩ ⟨raw', then''⟩ rest rest' ⟨hfits, hthen⟩ ⟨hfits', hthen'⟩ hbytes
  simp only [Form.andThen, List.append_assoc] at hbytes
  obtain ⟨rfl, hbehind⟩ := h hfits hfits' hbytes
  obtain ⟨rfl, hrest⟩ := hnext raw hthen hthen' hbehind
  exact ⟨rfl, hrest⟩

/-- The same things under another form can be told from their bytes, if different things are
different under both. -/
theorem map {form : Form ρ} {form' : Form σ} (h : form.Distinct) (e : σ → ρ)
    (hfits : ∀ raw, form'.Fits raw → form.Fits (e raw))
    (hencode : ∀ raw, form'.Fits raw → form.encode (e raw) = form'.encode raw)
    (hinj : ∀ raw raw', e raw = e raw' → raw = raw') : form'.Distinct := by
  intro raw raw' rest rest' hraw hraw' hbytes
  rw [← hencode raw hraw, ← hencode raw' hraw'] at hbytes
  obtain ⟨hsame, hrest⟩ := h (hfits raw hraw) (hfits raw' hraw') hbytes
  exact ⟨hinj raw raw' hsame, hrest⟩

/-- A number of things in a row can be told from their bytes: where the first one ends the second
one begins. -/
theorem times {form : Form ρ} (h : form.Distinct) (n : Nat) : (form.times n).Distinct := by
  induction n with
  | zero =>
    rintro raws raws' rest rest' ⟨hlength, -⟩ ⟨hlength', -⟩ hbytes
    rw [List.length_eq_zero_iff.1 hlength, List.length_eq_zero_iff.1 hlength'] at hbytes ⊢
    exact ⟨rfl, hbytes⟩
  | succ n ih =>
    rintro raws raws' rest rest' ⟨hlength, hraws⟩ ⟨hlength', hraws'⟩ hbytes
    obtain ⟨raw, more, rfl⟩ := List.exists_cons_of_length_eq_add_one hlength
    obtain ⟨raw', more', rfl⟩ := List.exists_cons_of_length_eq_add_one hlength'
    obtain ⟨hraw, hmore⟩ := List.forall_mem_cons.1 hraws
    obtain ⟨hraw', hmore'⟩ := List.forall_mem_cons.1 hraws'
    simp only [Form.times, List.flatMap_cons, List.append_assoc] at hbytes
    obtain ⟨rfl, hbehind⟩ := h hraw hraw' hbytes
    obtain ⟨rfl, hrest⟩ :=
      ih ⟨Nat.succ.inj hlength, hmore⟩ ⟨Nat.succ.inj hlength', hmore'⟩ hbehind
    exact ⟨rfl, hrest⟩

/-- And so can a table, for it begins with the number of its elements. -/
theorem table {form : Form ρ} (h : form.Distinct) : form.table.Distinct := by
  refine (count.andThen fun n => h.times n).map (fun raws => (raws.length, raws)) ?_
    (fun _ _ => rfl) fun _ _ hsame => (Prod.mk.inj hsame).2
  rintro raws ⟨hcount, hraws⟩
  exact ⟨hcount, rfl, hraws⟩

/-! ### Parts of a class file -/

/-- An attribute is known from its bytes, as its length is among them. -/
theorem oneAttribute : RawAttribute.form.Distinct := by
  have hparts := u2.andThen fun _ => u4.andThen fun length => bytes length.toNat
  have hlength (raw : RawAttribute) (hfits : RawAttribute.form.Fits raw) :
      (UInt32.ofNat raw.body.length).toNat = raw.body.length :=
    UInt32.toNat_ofNat_of_lt' (Nat.lt_of_le_of_lt hfits (by decide))
  refine hparts.map (fun raw => (raw.name, .ofNat raw.body.length, raw.body)) ?_ ?_ ?_
  · exact fun raw hfits => ⟨trivial, trivial, (hlength raw hfits).symm⟩
  · intro raw hfits
    simp only [Form.andThen, Form.u4, Form.bytes, hlength raw hfits, RawAttribute.form]
  · rintro ⟨name, body⟩ ⟨name', body'⟩ hsame
    obtain ⟨hname, hrest⟩ := Prod.mk.inj hsame
    exact (RawAttribute.mk.injEq ..).mpr ⟨hname, (Prod.mk.inj hrest).2⟩

/-- A member is known from its bytes, with all its attributes. -/
theorem member : RawMember.form.Distinct := by
  have hparts := u2.andThen fun _ => u2.andThen fun _ => u2.andThen fun _ => oneAttribute.table
  refine hparts.map (fun raw => (raw.access, raw.name, raw.descriptor, raw.attributes)) ?_
    (fun _ _ => rfl) ?_
  · exact fun raw hfits => ⟨trivial, trivial, trivial, hfits⟩
  · rintro ⟨access, name, descriptor, attributes⟩ ⟨access', name', descriptor', attributes'⟩ hsame
    cases hsame
    rfl

/-- Where a pool ends is known from its bytes, which no two pools share: reading one of them tells
how far it goes. -/
theorem pool : Decode.Parses.poolForm.Distinct := by
  intro bytes bytes' rest rest' hfits hfits' h
  obtain ⟨found, hfound⟩ := Option.isSome_iff_exists.1 hfits
  obtain ⟨found', hfound'⟩ := Option.isSome_iff_exists.1 hfits'
  have hread := Pool.ofBytes_eq_some_iff.1 hfound 0 rest .empty
  have hread' := Pool.ofBytes_eq_some_iff.1 hfound' 0 rest' .empty
  have h : bytes ++ rest = bytes' ++ rest' := h
  rw [h, hread', EStateM.Result.ok.injEq, Pool.Filling.mk.injEq, Input.mk.injEq] at hread
  obtain ⟨-, ⟨hoffset, hrest⟩, -⟩ := hread
  exact ⟨(List.append_inj h (Nat.add_left_cancel hoffset).symm).1, hrest.symm⟩

theorem magic : Decode.Parses.magicForm.Distinct :=
  fun _ _ _ _ _ _ h => ⟨rfl, List.append_cancel_left h⟩

/-- A header is known from its bytes, and the pool in it as it was read. -/
theorem header : RawHeader.form.Distinct := by
  have hparts := magic.andThen fun _ => u2.andThen fun _ => u2.andThen fun _ =>
    pool.andThen fun _ => u2.andThen fun _ => u2
  refine hparts.map
    (fun raw => ((), raw.minor, raw.major, raw.pool, raw.access, raw.name)) ?_ (fun _ _ => rfl) ?_
  · exact fun raw hfits => ⟨trivial, trivial, trivial, hfits, trivial, trivial⟩
  · rintro ⟨minor, major, pool, access, name⟩ ⟨minor', major', pool', access', name'⟩ hsame
    cases hsame
    rfl

theorem body : RawBody.form.Distinct := by
  have hparts := u2.andThen fun _ => u2.table.andThen fun _ => member.table.andThen fun _ =>
    member.table.andThen fun _ => oneAttribute.table
  refine hparts.map
    (fun raw => (raw.superclass, raw.interfaces, raw.fields, raw.methods, raw.attributes)) ?_
    (fun _ _ => rfl) ?_
  · exact fun raw hfits => ⟨trivial, hfits⟩
  · rintro ⟨superclass, interfaces, fields, methods, attributes⟩
      ⟨superclass', interfaces', fields', methods', attributes'⟩ hsame
    cases hsame
    rfl

/-- **Two layouts with the same bytes are the same**, so it makes sense to speak of the layout of a
class file. -/
theorem layout : Layout.form.Distinct := by
  refine (header.andThen fun _ => body).map (fun raw => (raw.toRawHeader, raw.toRawBody))
    (fun _ hfits => hfits) (fun _ _ => rfl) ?_
  rintro ⟨head, rest⟩ ⟨head', rest'⟩ hsame
  cases hsame
  rfl

end Distinct

end Form

/-- **To decode what is written from a layout is to act on the layout**, and all of it is
read. -/
theorem Session.decode_encode_iff {options : Options} {layout : Layout}
    (hfits : Layout.form.Fits layout) {trailing : Bytes} {session after : Session}
    {record : Record} :
    session.decode options (Layout.form.encode layout ++ trailing) = (.ok record, after) ↔
    ∃ s, Decode.classOf ⟨options.namer, none⟩ layout (session.decoder options none []) =
      .ok record s ∧ after = s.session.leave s.pool := by
  rw [decode_eq_ok_iff]
  constructor
  · rintro ⟨found, rest, hfound, hbytes, hrun⟩
    obtain ⟨rfl, -⟩ := Form.Distinct.layout hfits hfound hbytes
    exact hrun
  · exact fun hrun => ⟨layout, trailing, hfits, rfl, hrun⟩

/-- As many bytes of an accepted file are read as its layout is written with. -/
theorem Session.consumed_encode {options : Options} {layout : Layout}
    (hfits : Layout.form.Fits layout) {trailing : Bytes} {session after : Session}
    {record : Record}
    (h : session.decode options (Layout.form.encode layout ++ trailing) = (.ok record, after)) :
    session.consumed options none (Layout.form.encode layout ++ trailing) =
      (Layout.form.encode layout).length := by
  obtain ⟨s, hrun, -⟩ := decode_eq_ok_iff_classFile.1 h
  have hparses := Decode.Parses.classFile options.namer
  obtain ⟨found, rest, hfound, hbytes, hact⟩ := (hparses.eq_ok_iff _ _ s).1 hrun
  obtain ⟨rfl, -⟩ := Form.Distinct.layout hfits hfound hbytes
  rw [consumed, hrun]
  change s.input.offset = _
  rw [Decode.input_of_unfed (hparses.unfed layout hfits) hact]
  exact Nat.zero_add _

end ClassFile
