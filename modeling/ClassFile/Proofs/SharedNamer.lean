import ClassFile.Proofs.Inclusions
import ClassFile.Proofs.Isolation

/-!
# Decodings that share the usual namer

The usual namer is not one that computes packages: it files them, and the primitive package shares
its entry with an ordinary one, its *namesake* (`ClassFile.Namer.namesake`). So a decoding could
notice what was asked before. It does not as long as nobody asks for the namesake first. Then all
that can have become of an empty table is that the primitive package holds the entry
(`ClassFile.PackageTable.Leads`), and whoever asks for the primitive package gets it in any case.

This is shown in the way of arguments that hold until something bad happens. A decoding beside
others and the decoding of the same file by itself are alike if the namesake does not come to hold
the entry in the table of the latter (`ClassFile.Decode.AlikeWhile`). Once it does, it will do so
for ever, so it is enough to look at the table in the end (`ClassFile.Session.decode_mild`).
-/

namespace ClassFile

open Decode

/-! ### Tables -/

/-- All that may have become of a table: the primitive package came to hold the entry, if nobody
held it before. -/
def PackageTable.Leads (table later : PackageTable) : Prop :=
  later = table ∨ table.holder = none ∧ later.holder = some .ofPrimitives

namespace PackageTable.Leads

variable {first second third table : PackageTable}

theorem refl (table : PackageTable) : table.Leads table := .inl rfl

/-- What leads on from a table that was led to leads on from the first one. -/
theorem trans (h : first.Leads second) (h' : second.Leads third) : first.Leads third := by
  rcases h' with rfl | ⟨hnone, hprimitive⟩
  · exact h
  · rcases h with rfl | ⟨-, hholder⟩
    · exact .inr ⟨hnone, hprimitive⟩
    · exact nomatch hnone.symm.trans hholder

/-- The package under the name of the primitive one, when it is asked for in an empty table or one
to which that leads. -/
theorem getD_holder (h : Leads {} table) {package : Package} (hpackage : package = .ofPrimitives) :
    table.holder.getD package = .ofPrimitives := by
  rcases h with rfl | ⟨-, hholder⟩
  · exact hpackage
  · rw [hholder]
    rfl

end PackageTable.Leads

namespace Namer

/-- What the usual namer is to a decoding while others ask it as well, as long as they do not ask
for the namesake: it answers every request as it would answer it with a table that was led to. -/
def Mild (view : Namer) : Prop :=
  ∀ type table, ∃ found : PackageTable, table.Leads found ∧
    view.packageOf type table = shared.packageOf type found

/-- If nobody else asks, the namer is what it is: no request comes in between, and so the table
stays what it was. -/
theorem shared_mild : shared.Mild := fun _ table => ⟨table, .refl table, rfl⟩

/-- The namesake does not hold the entry of the primitive package. -/
def Spared (table : PackageTable) : Prop := table.holder ≠ some namesake

instance (table : PackageTable) : Decidable (Spared table) :=
  inferInstanceAs (Decidable (_ ≠ _))

/-- What is spared after a request was spared before, so it is enough to look at the table in the
end. This is what lets a whole decoding be judged by it. -/
theorem spared_of_packageOf {type : TypeName} {table : PackageTable}
    (h : Spared (shared.packageOf type table).2) : Spared table := by
  intro hholder
  exact h (holder_of_reaches (.ask type (.refl table)) hholder)

/-- A request comes to the same beside others as alone, if the namesake does not get the entry
alone. Here `apart` is the table of the file that is alone. -/
theorem Mild.packageOf {view : Namer} (hview : view.Mild) {table apart : PackageTable}
    (htable : PackageTable.Leads {} table) (hleads : apart.Leads table) {type : TypeName}
    (hspared : Spared (shared.packageOf type apart).2) :
    (view.packageOf type table).1 = (shared.packageOf type apart).1 ∧
      PackageTable.Leads {} (view.packageOf type table).2 ∧
      (shared.packageOf type apart).2.Leads (view.packageOf type table).2 := by
  obtain ⟨found, hfound, hanswer⟩ := hview type table
  rw [hanswer]
  have hempty := htable.trans hfound
  by_cases hfiled : Filed (.ofType type)
  · -- the primitive package is the only one that can be handed out here, to either of them
    rw [shared_packageOf_of_filed hfiled] at hspared ⊢
    rw [shared_packageOf_of_filed hfiled]
    have hgiven : apart.holder.getD (.ofType type) = .ofPrimitives ∧
        found.holder.getD (.ofType type) = .ofPrimitives := by
      cases hholder : apart.holder with
      | none =>
        have hprimitive : (Package.ofType type).primitive = true := by
          refine eq_true_of_ne_false fun hordinary => hspared ?_
          rw [hholder, ← eq_namesake hfiled hordinary]
          rfl
        have hpackage := Package.eq_ofPrimitives hprimitive
        exact ⟨hpackage, hempty.getD_holder hpackage⟩
      | some holder =>
        have hkept {later : PackageTable} (h : apart.Leads later) : later = apart :=
          h.resolve_right fun h => nomatch hholder.symm.trans h.1
        have hsame := hkept (hleads.trans hfound)
        have hheld : found.holder = some .ofPrimitives := by
          rcases hempty with rfl | ⟨-, hheld⟩
          · exact nomatch hholder.symm.trans (congrArg PackageTable.holder hsame.symm)
          · exact hheld
        rw [hheld]
        refine ⟨?_, rfl⟩
        rw [hsame, hholder] at hheld
        exact Option.some.inj hheld
    rw [hgiven.1, hgiven.2]
    exact ⟨rfl, .inr ⟨rfl, rfl⟩, .refl _⟩
  · rw [shared_packageOf_of_not_filed hfiled, shared_packageOf_of_not_filed hfiled]
    exact ⟨rfl, hempty, hleads.trans hfound⟩

end Namer

/-! ### Steps that are alike as long as the namesake is spared -/

variable {α β : Type} {R : Decoder → Decoder → Prop} {view : Namer} {level : Nat}

namespace Decode

/-- The table of the session that a step comes to. -/
def tableAfter (m : Decode α) (t : Decoder) : PackageTable :=
  (Handlers.reached (m t)).session.table

/-- From related states the two steps end alike if the namesake is spared in the end of the second
one, and then it was spared before. -/
structure AlikeWhile (R : Decoder → Decoder → Prop) (m m' : Decode α) : Prop where
  before (t : Decoder) : Namer.Spared (tableAfter m' t) → Namer.Spared t.session.table
  alike {s t : Decoder} : R s t → Namer.Spared (tableAfter m' t) → Alike Eq R (m s) (m' t)

namespace AlikeWhile

/-- A step that asks for no package is alike on both sides, and leaves the table as it was. -/
theorem of_simulates {m m' : Decode α} (h : Simulates Eq R m m')
    (htable : ∀ t, tableAfter m' t = t.session.table) : AlikeWhile R m m' where
  before t hspared := htable t ▸ hspared
  alike hst _ := h _ _ hst

/-- What is spared in the end of two steps was spared when the first one had ended. -/
theorem spared_of_bind {m : Decode α} {f : α → Decode β}
    (hf : ∀ a t, Namer.Spared (tableAfter (f a) t) → Namer.Spared t.session.table) {t : Decoder}
    (h : Namer.Spared (tableAfter (m >>= f) t)) : Namer.Spared (tableAfter m t) := by
  cases hrun : m t with
  | ok a t' =>
    rw [tableAfter, EStateM.bind_of_ok hrun] at h
    rw [tableAfter, hrun]
    exact hf a t' h
  | error fault t' =>
    rw [tableAfter, EStateM.bind_of_error hrun] at h
    rw [tableAfter, hrun]
    exact h

/-- Steps one after the other are alike as long as the namesake is spared, for it was spared after
the first one if it is so after both. -/
theorem bind {m m' : Decode α} {f f' : α → Decode β} (hm : AlikeWhile R m m')
    (hf : ∀ a, AlikeWhile R (f a) (f' a)) : AlikeWhile R (m >>= f) (m' >>= f') where
  before t hspared := hm.before t (spared_of_bind (fun a => (hf a).before) hspared)
  alike {s t} hst hspared := by
    have halike := hm.alike hst (spared_of_bind (fun a => (hf a).before) hspared)
    refine halike.bind fun {a s' t'} ht hnext => (hf a).alike hnext ?_
    rwa [tableAfter, EStateM.bind_of_ok ht] at hspared

/-- The part of the input that an attribute has to itself is looked at in the same way on both
sides. -/
theorem within (hR : SameInput R) {bytes : Bytes} {m m' : Decode α} (hm : AlikeWhile R m m') :
    AlikeWhile R (within bytes m) (within bytes m') := by
  have htable (t : Decoder) : tableAfter (Decode.within bytes m') t =
      tableAfter m' { t with input := .ofBytes bytes } := by
    rw [tableAfter, tableAfter, Decode.within]
    cases m' { t with input := .ofBytes bytes } <;> rfl
  refine ⟨fun t hspared => ?_, fun {s t} hst hspared => ?_⟩
  · rw [htable] at hspared
    exact hm.before { t with input := .ofBytes bytes } hspared
  · rw [htable] at hspared
    exact (hm.alike (hR.withInput (.ofBytes bytes) hst) hspared).within hR hst

/-- A trial comes to the same on both sides, and keeps what was asked for also if it fails. -/
theorem succeeds {m m' : Decode Unit} (hm : AlikeWhile R m m') :
    AlikeWhile R (succeeds m) (succeeds m') := by
  have htable (t : Decoder) : tableAfter (Decode.succeeds m') t = tableAfter m' t := by
    rw [tableAfter, tableAfter, Decode.succeeds]
    cases m' t <;> rfl
  exact ⟨fun t hspared => hm.before t (htable t ▸ hspared),
    fun {_ t} hst hspared => (hm.alike hst (htable t ▸ hspared)).succeeds⟩

end AlikeWhile

end Decode

/-- The first state is beside the second one. Its table is an empty one or one to which that leads,
and so does the table of the second state. -/
structure Decoder.Led (level : Nat) (s t : Decoder) : Prop extends Decoder.Beside level s t where
  tame : PackageTable.Leads {} s.session.table
  leads : t.session.table.Leads s.session.table

/-- What others ask for does not show in the core or in the input, so related decoders are alike in
all that a step may look at. -/
theorem Decoder.Led.congruent : Congruent (Decoder.Led level) where
  core h := h.core
  input h := h.input
  withCore core h := ⟨Decoder.Beside.congruent.withCore core h.toBeside, h.tame, h.leads⟩
  withInput input h := ⟨Decoder.Beside.congruent.withInput input h.toBeside, h.tame, h.leads⟩

namespace Decode.AlikeWhile

/-- Only where a package is asked for it matters that the namesake is spared. -/
theorem parametric (hview : view.Mild) :
    Parametric ⟨view, none⟩ ⟨.shared, none⟩ fun m m' => AlikeWhile (Decoder.Led level) m m' := by
  have hindifferent : Indifferent ⟨view, none⟩ ⟨.shared, none⟩
      fun m m' => AlikeWhile (Decoder.Led level) m m' :=
    { pure := fun a => of_simulates (.pure a) fun _ => rfl
      bind := bind
      throw := fun fault => of_simulates (.throw rfl) fun _ => rfl
      look := fun hk =>
        { before := fun t => (hk t t rfl).before t
          alike := fun {s t} hst => (hk s t hst.core).alike hst }
      change := fun g => of_simulates (.modify fun s t hst => by
        rw [hst.core]
        exact Decoder.Led.congruent.withCore _ hst) fun _ => rfl
      packageOf := fun type =>
        { before := fun t => Namer.spared_of_packageOf
          alike := fun {s t} hst hspared => by
            obtain ⟨hpackage, htame, hleads⟩ := hview.packageOf hst.tame hst.leads hspared
            change Alike _ _ (.ok (view.packageOf type s.session.table).1 _) (.ok _ _)
            rw [hpackage]
            exact .ok ⟨⟨hst.core, hst.input, hst.notes, hst.clean, hst.depth⟩, htame, hleads⟩ }
      tell := fun event => of_simulates (.modify fun _ _ hst => hst) fun _ => rfl }
  exact
    { hindifferent with
      take := fun n => by
        refine of_simulates (.read (fun _ => rfl) Decoder.Led.congruent.toSameInput _) fun t => ?_
        rw [tableAfter, Decode.read]
        cases Input.take n t.input <;> rfl
      within := within Decoder.Led.congruent.toSameInput
      readPool := by
        refine of_simulates (.readPool Decoder.Led.congruent) fun t => ?_
        rw [tableAfter, Decode.readPool]
        cases Pool.read ⟨t.input, t.pool⟩ <;> rfl
      attempt := fun index access => (hindifferent.naming.referDescriptor index access).succeeds
      call := fun index => by
        rw [method_eq_pure, method_eq_pure]
        exact hindifferent.pure () }

/-- A whole class file is decoded alike, by the rule that only packages and listeners can make a
difference. -/
theorem classFile (hview : view.Mild) :
    AlikeWhile (Decoder.Led level) (classFile ⟨view, none⟩) (classFile ⟨.shared, none⟩) := by
  have hparametric := @parametric view level hview
  refine hparametric.bind hparametric.classHeader fun ⟨record, orphan⟩ => ?_
  exact hparametric.bind (hparametric.classBody orphan) fun _ => hparametric.pure _

end Decode.AlikeWhile

/-! ### Whole decodings -/

/-- **Decodings that share the usual namer do not disturb each other**, as long as they spare its
one entry that two packages share: what comes of a file on a clean session, while others ask the
namer too, is what comes of it by itself, if by itself it has not had its namesake filed for the
primitive package. -/
theorem Session.decode_mild (hview : view.Mild) (walk : Bool) {session : Session}
    (hclean : session.Clean) (htable : PackageTable.Leads {} session.table) {bytes : Bytes}
    (hspared : Namer.Spared (Session.decode ⟨.shared, walk⟩ bytes {}).2.table) :
    (session.decode ⟨view, walk⟩ bytes).1 = (Session.decode ⟨.shared, walk⟩ bytes {}).1 ∧
      (session.decode ⟨view, walk⟩ bytes).2.Clean ∧
      PackageTable.Leads {} (session.decode ⟨view, walk⟩ bytes).2.table := by
  have hbegin : Decoder.Led (session.depth + 1) (session.decoder ⟨view, walk⟩ none bytes)
      (Session.decoder ⟨.shared, walk⟩ none bytes {}) := by
    refine ⟨⟨?_, rfl, rfl, hclean.enter, rfl⟩, htable, htable⟩
    simp only [Decoder.core, Session.decoder, hclean.enter_fst]
    rfl
  have hend : (Session.decode ⟨.shared, walk⟩ bytes {}).2.table =
      tableAfter (classFile ⟨.shared, none⟩) (Session.decoder ⟨.shared, walk⟩ none bytes {}) := by
    rw [decode, run, tableAfter]
    dsimp only
    cases classFile ⟨.shared, none⟩ (Session.decoder ⟨.shared, walk⟩ none bytes {}) <;> rfl
  have halike := (AlikeWhile.classFile hview).alike hbegin (hend ▸ hspared)
  rw [decode, decode, run, run]
  obtain ⟨record, s, t, hs, ht, hst⟩ | ⟨fault, _, s, t, hs, ht, rfl, hst⟩ := halike.eq_or
  · rw [hs, ht]
    exact ⟨rfl, hst.clean.leave s.pool, hst.tame⟩
  · rw [hs, ht]
    exact ⟨rfl, hst.clean.leave s.pool, hst.tame⟩

end ClassFile
