import ClassFile.Layout.Code
import ClassFile.Proofs.Simulation
import ClassFile.Proofs.Unambiguous
import Mathlib.Data.List.Forall2

/-!
# Decodings that follow others

Two class files may differ in a few parts only, or be decoded in slightly different ways. Such
decodings are compared step by step, as long as the first one succeeds
(`ClassFile.Decode.Follows`): then the second one does as well.

A list of parts may have lost some, and others may have changed (`ClassFile.Sheds`). A method body
is an attribute with attributes in it, and changes if it loses some of these; so method bodies are
parsed here as far as their attributes. That a class file has lost attributes somewhere is
`ClassFile.Layout.Loses`.
-/

namespace ClassFile

/-! ### Method bodies -/

namespace Decode

theorem Parses.code (c : Context) : Parses RawCode.form (codeOf c) (code c) := by
  have hunfed : Indifferent c c fun {α} (m m' : Decode α) => m = m' ∧ Unfed .decoder m :=
    unfed_indifferent
  have hwalking := hunfed.walking (hunfed.call rfl)
  have hhandler : Parses RawCode.handlerForm (fun raw => referClassConstant c raw.2) (do
      Decode.read (Input.skip 6)
      referClassConstant c (← Decode.u2)) := by
    have hskip : Decode.read (Input.skip 6) = Decode.read (Input.take 6) >>= fun _ => pure () := by
      rw [Input.skip, read_bind]
      rfl
    rw [hskip, bind_assoc]
    exact (take 6).read fun _ => u2.before fun index => (hunfed.referClassConstant index).2
  have hrest (length : UInt32) := (take length.toNat).read fun code =>
    look (fun s => after (hwalking.walk s.targets code).2 fun _ =>
      tableThen hhandler.repeated fun _ => attributes c (pure ()) .method 0) fun _ _ => rfl
  have hparts := u2.read fun _ => u2.read fun _ => u4.read hrest
  let e (raw : UInt16 × UInt16 × UInt32 × Bytes × List (Bytes × UInt16) × List RawAttribute) :
      RawCode := ⟨raw.1, raw.2.1, raw.2.2.2.1, raw.2.2.2.2.1, raw.2.2.2.2.2⟩
  refine hparts.map e ?_ ?_ (fun _ => rfl) ?_
  · rintro ⟨stack, locals, length, code, handlers, raws⟩ ⟨-, -, -, hlength, hhandlers, hraws⟩
    have hlength : code.length = length.toNat := hlength
    exact ⟨Nat.lt_of_le_of_lt (Nat.le_of_eq hlength) length.toNat_lt, hhandlers, hraws⟩
  · rintro ⟨stack, locals, length, code, handlers, raws⟩ ⟨-, -, -, hlength, -⟩
    have hlength : code.length = length.toNat := hlength
    simp only [e, RawCode.form, hlength]
    rfl
  · rintro ⟨stack, locals, code, handlers, raws⟩ ⟨hlength, hhandlers, hraws⟩
    have hcode : (UInt32.ofNat code.length).toNat = code.length :=
      UInt32.toNat_ofNat_of_lt' hlength
    exact ⟨(stack, locals, .ofNat code.length, code, handlers, raws),
      ⟨trivial, trivial, trivial, hcode.symm, hhandlers, hraws⟩, rfl⟩

end Decode

/-- A method body can be read in one way only: two bodies with the same bytes are the same. -/
theorem Form.Distinct.code : RawCode.form.Distinct := by
  have hhandler : RawCode.handlerForm.Distinct := (bytes 6).andThen fun _ => u2
  have hparts := u2.andThen fun _ => u2.andThen fun _ => u4.andThen fun length =>
    (bytes length.toNat).andThen fun _ => hhandler.table.andThen fun _ => oneAttribute.table
  have hlength (raw : RawCode) (hfits : RawCode.form.Fits raw) :
      (UInt32.ofNat raw.code.length).toNat = raw.code.length :=
    UInt32.toNat_ofNat_of_lt' hfits.1
  refine hparts.map (fun raw => (raw.maxStack, raw.maxLocals, .ofNat raw.code.length, raw.code,
    raw.handlers, raw.attributes)) ?_ ?_ ?_
  · exact fun raw hfits => ⟨trivial, trivial, trivial, (hlength raw hfits).symm, hfits.2⟩
  · intro raw hfits
    simp only [Form.andThen, Form.u4, Form.bytes, hlength raw hfits, RawCode.form]
  · rintro ⟨stack, locals, code, handlers, raws⟩ ⟨stack', locals', code', handlers', raws'⟩ hsame
    simp only [Prod.mk.injEq] at hsame
    obtain ⟨rfl, rfl, -, rfl, rfl, rfl⟩ := hsame
    rfl

/-! ### Lists without some elements -/

/-- The second list is the first one without some of the elements that may be dropped, and with
other elements in place of those that may become them. -/
inductive Sheds {α : Type} (Drops : α → Prop) (Becomes : α → α → Prop) : List α → List α → Prop
  | nil : Sheds Drops Becomes [] []
  | drop {x : α} {xs ys : List α} : Drops x → Sheds Drops Becomes xs ys →
    Sheds Drops Becomes (x :: xs) ys
  | keep {x y : α} {xs ys : List α} : Becomes x y → Sheds Drops Becomes xs ys →
    Sheds Drops Becomes (x :: xs) (y :: ys)

theorem Sheds.mono {α : Type} {Drops : α → Prop} {Becomes Becomes' : α → α → Prop}
    {xs ys : List α} (h : Sheds Drops Becomes xs ys)
    (hbecomes : ∀ x y, Becomes x y → Becomes' x y) : Sheds Drops Becomes' xs ys := by
  induction h with
  | nil => exact .nil
  | drop hdrop _ ih => exact .drop hdrop ih
  | keep hkeep _ ih => exact .keep (hbecomes _ _ hkeep) ih

/-- If no element is dropped the lists correspond, element by element. -/
theorem Sheds.of_forall₂ {α : Type} {Drops : α → Prop} {Becomes : α → α → Prop} {xs ys : List α}
    (h : List.Forall₂ Becomes xs ys) : Sheds Drops Becomes xs ys := by
  induction h with
  | nil => exact .nil
  | cons hbecomes _ ih => exact .keep hbecomes ih

namespace Sheds

variable {ρ : Type} {form : Form ρ} {Drops : ρ → Prop} {Becomes : ρ → ρ → Prop}
  {raws raws' : List ρ}

theorem length_le (h : Sheds Drops Becomes raws raws') : raws'.length ≤ raws.length := by
  induction h with
  | nil => exact Nat.le_refl 0
  | drop _ _ ih => exact Nat.le_succ_of_le ih
  | keep _ _ ih => exact Nat.succ_le_succ ih

/-- What is left fits, if what becomes of an element does. -/
theorem forall_fits (hbecomes : ∀ raw raw', Becomes raw raw' → form.Fits raw → form.Fits raw')
    (h : Sheds Drops Becomes raws raws') (hfits : ∀ raw ∈ raws, form.Fits raw) :
    ∀ raw ∈ raws', form.Fits raw := by
  induction h with
  | nil => exact hfits
  | drop _ _ ih => exact ih (List.forall_mem_cons.1 hfits).2
  | keep hkeep _ ih =>
    obtain ⟨hfirst, hrest⟩ := List.forall_mem_cons.1 hfits
    exact List.forall_mem_cons.2 ⟨hbecomes _ _ hkeep hfirst, ih hrest⟩

/-- So does a table of what is left, as its number of elements is smaller. -/
theorem table_fits (hbecomes : ∀ raw raw', Becomes raw raw' → form.Fits raw → form.Fits raw')
    (h : Sheds Drops Becomes raws raws') (hfits : form.table.Fits raws) : form.table.Fits raws' :=
  ⟨Nat.lt_of_le_of_lt h.length_le hfits.1, forall_fits hbecomes h hfits.2⟩

/-- A table of which only elements are dropped takes no more bytes, so a length that had room for it
still has. -/
theorem length_table_le (h : Sheds Drops Eq raws raws') :
    (form.table.encode raws').length ≤ (form.table.encode raws).length := by
  have hbytes : (raws'.flatMap form.encode).length ≤ (raws.flatMap form.encode).length := by
    induction h with
    | nil => exact Nat.le_refl _
    | drop _ _ ih =>
      rw [List.flatMap_cons, List.length_append]
      exact Nat.le_add_left_of_le ih
    | keep hsame _ ih =>
      subst hsame
      rw [List.flatMap_cons, List.flatMap_cons, List.length_append, List.length_append]
      exact Nat.add_le_add_left ih _
  simp only [Form.table, Form.count, List.length_append, Bytes.length_bigEndian]
  exact Nat.add_le_add_left hbytes 2

end Sheds

theorem RawCode.fits_of_sheds {Drops : RawAttribute → Prop} {code : RawCode}
    {attributes : List RawAttribute} (h : Sheds Drops Eq code.attributes attributes)
    (hfits : RawCode.form.Fits code) : RawCode.form.Fits { code with attributes } :=
  ⟨hfits.1, hfits.2.1, @Sheds.table_fits _ RawAttribute.form Drops Eq _ _
    (fun _ _ hsame hfits => hsame ▸ hfits) h hfits.2.2⟩

/-! ### Files without some attributes -/

/-- The attribute stays, or it is a method body that loses some of its attributes. -/
inductive RawAttribute.Loses (pool : Pool) (Drops : RawAttribute → Prop) :
    RawAttribute → RawAttribute → Prop
  | same (raw : RawAttribute) : Loses pool Drops raw raw
  | inside {name : UInt16} {code : RawCode} {attributes : List RawAttribute} {rest : Bytes} :
    pool.utf8 name = .ok "Code" → RawCode.form.Fits code →
    Sheds Drops Eq code.attributes attributes →
    Loses pool Drops ⟨name, RawCode.form.encode code ++ rest⟩
      ⟨name, RawCode.form.encode { code with attributes } ++ rest⟩

/-- A table of attributes loses some, there or in a method body. -/
abbrev RawAttribute.TableLoses (pool : Pool) (Drops : RawAttribute → Prop) :
    List RawAttribute → List RawAttribute → Prop :=
  Sheds Drops (RawAttribute.Loses pool Drops)

/-- The member loses some attributes. -/
def RawMember.Loses (pool : Pool) (Drops : RawAttribute → Prop) (raw raw' : RawMember) : Prop :=
  ∃ attributes, RawAttribute.TableLoses pool Drops raw.attributes attributes ∧
    raw' = { raw with attributes }

/-- The class loses some attributes: its own, those of members, or those in method bodies. -/
structure Layout.Loses (Drops : RawAttribute → Prop) (layout layout' : Layout) : Prop where
  header : layout'.toRawHeader = layout.toRawHeader
  superclass : layout'.superclass = layout.superclass
  interfaces : layout'.interfaces = layout.interfaces
  fields : List.Forall₂ (RawMember.Loses layout.constants Drops) layout.fields layout'.fields
  methods : List.Forall₂ (RawMember.Loses layout.constants Drops) layout.methods layout'.methods
  attributes :
    RawAttribute.TableLoses layout.constants Drops layout.attributes layout'.attributes

section Fits

variable {Drops : RawAttribute → Prop}

theorem RawAttribute.Loses.fits {pool : Pool} {raw raw' : RawAttribute}
    (h : RawAttribute.Loses pool Drops raw raw') (hfits : RawAttribute.form.Fits raw) :
    RawAttribute.form.Fits raw' := by
  cases h with
  | same => exact hfits
  | @inside name code attributes rest _ _ hsheds =>
    refine Nat.le_trans ?_ hfits
    have htable := @Sheds.length_table_le _ RawAttribute.form _ _ _ hsheds
    simp only [RawCode.form, List.length_append]
    omega

theorem RawMember.Loses.fits {pool : Pool} {raw raw' : RawMember}
    (h : RawMember.Loses pool Drops raw raw') (hfits : RawMember.form.Fits raw) :
    RawMember.form.Fits raw' := by
  obtain ⟨attributes, hsheds, rfl⟩ := h
  exact hsheds.table_fits (fun _ _ h => h.fits) hfits

theorem Layout.Loses.fits {layout layout' : Layout} (h : layout.Loses Drops layout')
    (hfits : Layout.form.Fits layout) : Layout.form.Fits layout' := by
  obtain ⟨hheader, hinterfaces, hfields, hmethods, hattributes⟩ := hfits
  have hmembers {raws raws' : List RawMember}
      (hsheds : List.Forall₂ (RawMember.Loses layout.constants Drops) raws raws')
      (hfits : RawMember.form.table.Fits raws) : RawMember.form.table.Fits raws' :=
    @Sheds.table_fits _ RawMember.form (fun _ => False) _ _ _ (fun _ _ h => h.fits)
      (.of_forall₂ hsheds) hfits
  refine ⟨h.header ▸ hheader, h.interfaces ▸ hinterfaces, hmembers h.fields hfields,
    hmembers h.methods hmethods, h.attributes.table_fits (fun _ _ h => h.fits) hattributes⟩

end Fits

/-! ### Steps that go on alike -/

namespace Decode

variable {α β : Type} {V : α → α → Prop} {W : β → β → Prop} {R : Decoder → Decoder → Prop}

/-- Wherever the first step succeeds, the second does from a related state, with a related value
and in a related state. -/
def Follows (V : α → α → Prop) (R : Decoder → Decoder → Prop) (m m' : Decode α) : Prop :=
  ∀ ⦃s t value s'⦄, R s t → m s = .ok value s' →
    ∃ value' t', m' t = .ok value' t' ∧ V value value' ∧ R s' t'

namespace Follows

theorem of_simulates {E : Fault → Fault → Prop} {m m' : Decode α} (h : Simulates E R m m') :
    Follows Eq R m m' := by
  intro s t value s' hst hrun
  obtain ⟨_, _, t', hs, ht, hnext⟩ | ⟨_, _, _, _, hs, -⟩ := (h s t hst).eq_or
  · cases hrun.symm.trans hs
    exact ⟨value, t', ht, rfl, hnext⟩
  · cases hrun.symm.trans hs

theorem bind {m m' : Decode α} {f f' : α → Decode β} (hm : Follows Eq R m m')
    (hf : ∀ a, Follows W R (f a) (f' a)) : Follows W R (m >>= f) (m' >>= f') := by
  intro s t value s' hst hrun
  obtain ⟨a, u, hfirst, hrest⟩ := EStateM.ok_of_bind hrun
  obtain ⟨_, v, hfirst', rfl, hnext⟩ := hm hst hfirst
  obtain ⟨value', t', hrest', hvalue, hlast⟩ := hf a hnext hrest
  exact ⟨value', t', EStateM.bind_eq hfirst' hrest', hvalue, hlast⟩

/-- What is done may depend on where the decoder is, as long as related decoders do what is
related. -/
theorem look {k k' : Decoder → Decode α} (hk : ∀ s t, R s t → Follows V R (k s) (k' t)) :
    Follows V R (get >>= k) (get >>= k') :=
  fun s t _ _ hst hrun => hk s t hst hst hrun

/-- Elements that are dropped must be as good as nothing, and each of the others must be followed by
what becomes of it. -/
theorem forM {ρ : Type} {Drops : ρ → Prop} {Becomes : ρ → ρ → Prop} {f f' : ρ → Decode Unit}
    (hdrop : ∀ raw, Drops raw → Follows Eq R (f raw) (pure ()))
    (hkeep : ∀ raw raw', Becomes raw raw' → Follows Eq R (f raw) (f' raw')) {raws raws' : List ρ}
    (h : Sheds Drops Becomes raws raws') : Follows Eq R (raws.forM f) (raws'.forM f') := by
  induction h with
  | nil => exact fun s t _ _ hst hrun => ⟨(), t, rfl, rfl, by cases hrun; exact hst⟩
  | @drop raw raws raws' hraw _ ih =>
    exact @bind _ _ _ _ _ _ (fun _ => raws.forM f) (fun _ => raws'.forM f') (hdrop raw hraw)
      fun _ => ih
  | keep hraw _ ih => exact bind (hkeep _ _ hraw) fun _ => ih

/-- If no element is dropped, each is followed by the one in its place, and so are the loops over
them. -/
theorem forM_of_forall₂ {ρ : Type} {f f' : ρ → Decode Unit} {raws raws' : List ρ}
    (h : List.Forall₂ (fun raw raw' => Follows Eq R (f raw) (f' raw')) raws raws') :
    Follows Eq R (raws.forM f) (raws'.forM f') := by
  have hnone : Sheds (fun _ => False) (fun raw raw' => Follows Eq R (f raw) (f' raw')) raws raws' :=
    .of_forall₂ h
  exact .forM (fun _ hdrop => hdrop.elim) (fun _ _ hfollows => hfollows) hnone

/-- The same elements may be gone through by two loops. -/
theorem forM_same {ρ : Type} {f f' : ρ → Decode Unit} {raws : List ρ}
    (h : ∀ raw ∈ raws, Follows Eq R (f raw) (f' raw)) : Follows Eq R (raws.forM f) (raws.forM f') :=
  forM_of_forall₂ (List.forall₂_same.2 h)

/-- Elements may be taken in another order, if each two of them may be. The order is changed by
exchanging neighbours, and the relation has to be one that can be passed on. -/
theorem forM_perm {ρ : Type} {Allowed : ρ → Prop} {f : ρ → Decode Unit} {raws raws' : List ρ}
    (h : raws.Perm raws') (hraws : ∀ raw ∈ raws, Allowed raw)
    (hleft : ∀ {s t}, R s t → R s s) (htrans : ∀ {s u t}, R s u → R u t → R s t)
    (hsame : ∀ raw, Allowed raw → Follows Eq R (f raw) (f raw))
    (hswap : ∀ raw other, Allowed raw → Allowed other →
      Follows Eq R (f raw >>= fun _ => f other) (f other >>= fun _ => f raw)) :
    Follows Eq R (raws.forM f) (raws'.forM f) := by
  induction h with
  | nil => exact forM_same fun _ hraw => absurd hraw List.not_mem_nil
  | @cons raw raws raws' _ ih =>
    obtain ⟨hraw, hraws⟩ := List.forall_mem_cons.1 hraws
    exact bind (hsame raw hraw) fun _ => ih hraws
  | swap raw other raws =>
    obtain ⟨hother, hrest⟩ := List.forall_mem_cons.1 hraws
    obtain ⟨hraw, hraws⟩ := List.forall_mem_cons.1 hrest
    have hrest := bind (hswap other raw hother hraw) fun _ => forM_same fun raw hmem =>
      hsame raw (hraws raw hmem)
    simp only [bind_assoc] at hrest
    exact hrest
  | @trans raws middle raws' hfirst _ ih ih' =>
    intro s t value s' hst hrun
    obtain ⟨_, u, hmiddle, rfl, hnext⟩ := ih hraws (hleft hst) hrun
    obtain ⟨_, t', hlast, rfl, hend⟩ :=
      ih' (fun raw hraw => hraws raw (hfirst.mem_iff.2 hraw)) hst hmiddle
    exact ⟨_, t', hlast, rfl, htrans hnext hend⟩

/-- What is parsed from other bytes is followed by what is parsed from others again, if what is
done with the one is followed by what is done with the other. -/
theorem within {ρ : Type} {form : Form ρ} {act : ρ → Decode Unit} {m : Decode Unit}
    (hm : Parses form act m) (hdistinct : form.Distinct) {raw raw' : ρ}
    (hfits : form.Fits raw) (hfits' : form.Fits raw') (h : Follows Eq R (act raw) (act raw'))
    (rest : Bytes) :
    Follows Eq R (within (form.encode raw ++ rest) m) (within (form.encode raw' ++ rest) m) := by
  intro s t value s' hst hrun
  obtain ⟨u, hbody, rfl⟩ := ok_of_within hrun
  obtain ⟨found, rest', hfound, hbytes, hact⟩ := (hm.eq_ok_iff _ _ u).1 hbody
  obtain ⟨rfl, rfl⟩ := hdistinct hfits hfound hbytes
  -- the actions do not read, so they can be compared on the input outside
  obtain ⟨_, v, hact', -, hnext⟩ := h hst (ok_of_unfed (hm.unfed raw hfits) hact s.input)
  have hinput : v.input = t.input := input_of_unfed (hm.unfed raw' hfits') hact'
  let behind : Input := ⟨0 + (form.encode raw').length, rest⟩
  have hbody' : m { t with input := .ofBytes (form.encode raw' ++ rest) } =
      .ok value { v with input := behind } :=
    (hm.eq_ok_iff _ _ _).2
      ⟨raw', rest, hfits', rfl, ok_of_unfed (hm.unfed raw' hfits') hact' behind⟩
  refine ⟨value, v, ?_, rfl, hnext⟩
  rw [Decode.within, hbody', ← hinput]

end Follows

end Decode

end ClassFile
