import ClassFile.Proofs.Annotations
import ClassFile.Proofs.Classwise

/-!
# What one decoding does alone

Of two decodings that are abreast the first may go through a part that the second passes over: a
method body, an attribute, or a hidden member. As long as nothing there can be seen from outside,
and the types that are mentioned are extra, the decodings stay as near as they were
(`ClassFile.Decode.Follows.of_leads`).

Which classes the code of a body loads by name depends on the constants that are loaded before. A
second walk over the code takes them down (`ClassFile.Pool.loads`), and the first walk does with
each of them what it does with any other reference (`ClassFile.Decode.walk_takes_down`).
-/

namespace ClassFile.Decode

open Decoder

variable {namer : Namer} {extra : TypeName → Prop} {pool : Pool} {G : Gathered → Gathered → Prop}
  {name : TypeName} {V : Attention → Attention → Prop} {t : Decoder}

/-! ### Steps that the first decoding takes -/

/-- Whatever the first decoding does, the second one is as near as it was. -/
abbrev Alone (G : Gathered → Gathered → Prop) (name : TypeName) (V : Attention → Attention → Prop)
    (t : Decoder) {α : Type} (m : Decode α) : Prop :=
  Keeps (fun s => s.Near G name V t) (fun _ => True) m

/-- The second decoding is as near as it was, if the first one succeeds. -/
abbrev Passes (G : Gathered → Gathered → Prop) (name : TypeName) (V : Attention → Attention → Prop)
    (t : Decoder) {α : Type} (m : Decode α) : Prop :=
  Leads (fun s => s.Near G name V t) (fun _ s => s.Near G name V t) m

/-- A step that is taken alone, and reads nothing, is as good as none: the decoders are in step
after it if they were before. -/
theorem Follows.of_leads {m : Decode Unit} (hunfed : Unfed .decoder m)
    (hm : ∀ t, Passes G name V t m) :
    Follows Eq (Abreast G name V) m (pure ()) := by
  intro s t value s' hst hrun
  refine ⟨(), t, rfl, rfl, hm t s _ s' hst.toTied hrun, ?_⟩
  rw [input_of_unfed hunfed hrun]
  exact hst.input

/-- The first decoder may have read more than the second one. -/
theorem near_withInput (s : Decoder) (input : Input) (h : s.Near G name V t) :
    Near G name V { s with input := input } t :=
  ⟨h.gathered, h.record, h.attention⟩

/-- It may have gathered more, if that is related to what the second one has gathered. -/
theorem near_withGathered {s : Decoder} (h : s.Near G name V t) {found : Gathered}
    (hfound : G found t.gathered) : Near G name V (s.withGathered found) t :=
  ⟨hfound, h.record, h.attention⟩

/-- The first record changes in a way that does not concern the class. The second one stays as it
is, and still resembles it. -/
theorem besides_alone {m : Decode Unit} (hm : ∀ s, ∃ g, Record.Besides g ∧
    m s = .ok () { s with record := s.record.map g }) : Alone G name V t m := by
  intro s hs
  obtain ⟨g, hg, hrun⟩ := hm s
  rw [hrun]
  refine ⟨hs.gathered, ?_, hs.attention⟩
  have hrecord := hs.record.map (f := g) (g := id) fun _ _ h => h.uniform_left hg.headed.toUniform
  rwa [Option.map_id] at hrecord

/-- The first record changes into one that resembles the second one as well. -/
theorem updateRecord_alone {f : Record → Record}
    (hf : ∀ record other, record.Resembles name other → (f record).Resembles name other) :
    Alone G name V t (updateRecord f) := by
  refine .updateRecord trivial fun s hs => ⟨hs.gathered, ?_, hs.attention⟩
  have hrecord := hs.record.map (f := f) (g := id) fun _ _ h => hf _ _ h
  rwa [Option.map_id] at hrecord

/-- What attributes put on record is put there by the first decoding alone. That is members and
annotations, which a record may have more of. -/
theorem reading_alone : Reading ⟨namer, none⟩ ⟨namer, none⟩ fun m _ => Alone G name V t m where
  pure := .pure
  bind := .bind
  throw _ := .throw trivial
  ask _ := .ask fun _ _ _ => trivial
  look hk := .look fun s => hk s s rfl
  tell _ := fun _ hs => hs
  updateRecord hf := updateRecord_alone fun _ _ h => h.uniform_left hf.toUniform
  updateMember _ := besides_alone (updateMember_ok _)
  keepDefaultOf value := besides_alone (keepDefaultOf_ok value)
  take _ := .read near_withInput fun _ _ _ _ => trivial
  within := .within near_withInput

/-- A method body that is not walked through is read and passed over. -/
theorem passes_nothing (body : Bytes) : Passes G name V t (within body (pure ())) := by
  have hnothing : Alone G name V t (pure ()) := .pure ()
  exact (hnothing.within near_withInput).leads

/-- What is gathered may be all the same to the second decoding, if the relation stays when only the
first one gathers it. -/
theorem gather_alone (op : Gather)
    (hop : ∀ {found other}, G found other → G (op.apply namer found) other) :
    Alone G name V t (op.step ⟨namer, none⟩) := by
  intro s hs
  rw [op.step_eq]
  exact near_withGathered hs (hop hs.gathered)

section Ahead

variable (hG : Gathered.Ahead namer extra pool G)
include hG

/-- A class constant may be met by the first decoding alone: both pools are looked at when
everything has been gathered. -/
theorem constant_alone (index : UInt16) :
    Alone G name V t (referClassConstant ⟨namer, none⟩ index) :=
  gather_alone (.constant index) (hG.constant index)

/-- A type that is extra is referred to, by something hidden. So it is exposed by neither
decoding. -/
theorem refer_alone {type : TypeName} {access : Access} (hextra : extra type.referent)
    (hhidden : access.isVisible = false) : Alone G name V t (refer ⟨namer, none⟩ type access) :=
  gather_alone (.refer type access) (hG.refer hextra hhidden)

/-- Whatever attributes ask of the pool or tell of themselves leaves the relation as it is. -/
theorem detailing_alone :
    Detailing ⟨namer, none⟩ ⟨namer, none⟩ fun m _ => Alone G name V t m where
  toReading := reading_alone
  constant := constant_alone hG
  keepInnerClass entry :=
    .bind (fun _ hs => hs) fun _ =>
      updateRecord_alone fun _ _ h => h.uniform_left (Record.marginal_putInnerClass entry).toUniform
  keepEnclosingMethod place :=
    .bind (fun _ hs => hs) fun _ =>
      updateRecord_alone fun _ _ h =>
        h.uniform_left (Record.marginal_putEnclosingMethod place).toUniform

/-! ### Attributes that the first decoding reads -/

/-- All classes that the text at an index names are extra, so the text can be referred to by the
first decoding alone, be there a fault in it or not. -/
theorem referDescriptor_alone {index : UInt16} {access : Access}
    (hextra : ∀ type, pool.Spells index type → extra type) (hhidden : access.isVisible = false) :
    Alone G name V t (referDescriptor ⟨namer, none⟩ index access) := by
  refine .bind_of_ok (.ask fun _ _ _ => trivial) fun s text _ hs hrun => ?_
  have htext := (Pool.Question.utf8 index).ok_of_like (hG.left hs.gathered) (ok_of_utf8 hrun).1
  have hmentions (names : List String) (hnames : names ⊆ (Signature.scan text).names) :
      Alone G name V t (names.forM (mention ⟨namer, none⟩ access)) := by
    induction names with
    | nil => exact .pure ()
    | cons first names ih =>
      obtain ⟨hfirst, hrest⟩ := List.cons_subset.1 hnames
      refine .bind (.bind (fun _ hs => hs) fun _ => ?_) fun _ => ih hrest
      exact refer_alone hG (hextra _ ⟨text, first, htext, hfirst, rfl⟩) hhidden
  refine .bind (hmentions _ (List.Subset.refl _)) fun _ => ?_
  cases (Signature.scan text).fault with
  | none => exact .pure ()
  | some fault => exact .throw trivial

/-- The type of an annotation that can be seen at run time only names what is extra. Other
annotations refer to nothing. -/
theorem annotationType_alone {retention : Retention} {access : Access} {index : UInt16}
    (hextra : retention = .runtime → ∀ type, pool.Spells index type → extra type)
    (hhidden : access.isVisible = false) :
    Alone G name V t (annotationType ⟨namer, none⟩ retention access index) := by
  refine .bind (.ask fun _ _ _ => trivial) fun text => ?_
  cases retention with
  | compiled => exact .pure _
  | runtime =>
    have hexpose : Alone G name V t (expose ⟨namer, none⟩ (.ofText text) access) := by
      intro s hs
      rw [expose_eq, Collected.expose_of_hidden hhidden]
      exact hs
    exact .bind (referDescriptor_alone hG (hextra rfl) (by decide)) fun _ =>
      .bind hexpose fun _ => .pure _

/-- A signature that is tried out mentions what is extra, up to the fault in it if there is one. -/
theorem signatureAt_alone {index : UInt16} {access : Access} (site : Site)
    (hextra : ∀ type, pool.Spells index type → extra type) (hhidden : access.isVisible = false) :
    Alone G name V t (signatureAt ⟨namer, none⟩ site access index) :=
  reading_alone.signatureAt (d := ⟨namer, none⟩) (referDescriptor_alone hG hextra hhidden).succeeds
    (fun _ => besides_alone (updateMember_ok _)) site

/-- An exception that is declared is the class at an index, and that is extra. -/
theorem exception_alone {index : UInt16} {access : Access}
    (hextra : ∀ text, pool.className index = .ok text → extra (TypeName.ofText text).referent)
    (hhidden : access.isVisible = false) :
    Alone G name V t (classAt index >>= fun type => refer ⟨namer, none⟩ type access) := by
  have hreading : Reading ⟨namer, none⟩ ⟨namer, none⟩ fun m _ => Alone G name V t m :=
    reading_alone
  refine .bind_of_ok (hreading.classAt index) fun s type _ hs hrun => ?_
  obtain ⟨text, hname, rfl, -⟩ := ok_of_classAt hrun
  have hname := (Pool.Question.className index).ok_of_like (hG.left hs.gathered) hname
  exact refer_alone hG (hextra text hname) hhidden

/-- **An attribute of something hidden** that mentions only what is extra can be read by the first
decoding alone. There is one case for each kind of attribute; what is in a method body is left
open. -/
theorem attributeBody_alone {onCode : Decode Unit} {site : Site} {access : Access}
    {kind : AttributeKind} {body : Bytes}
    (hextra : ∀ type, kind.Mentions pool type body → extra type)
    (hhidden : access.isVisible = false)
    (hcode : kind = .code → Passes G name V t (within body onCode)) :
    Passes G name V t
      (within body (attributeBody ⟨namer, none⟩ onCode site access kind)) := by
  have hdetailing : Detailing ⟨namer, none⟩ ⟨namer, none⟩ fun m _ => Alone G name V t m :=
    detailing_alone hG
  have hother (hcompiled : kind.retention? ≠ some .runtime) (hsignature : kind ≠ .signature)
      (hexceptions : kind ≠ .exceptions) (hcode : kind ≠ .code) :
      Passes G name V t
        (within body (attributeBody ⟨namer, none⟩ onCode site access kind)) := by
    have hbody : Alone G name V t (attributeBody ⟨namer, none⟩ onCode site access kind) := by
      refine @Detailing.attributeBody _ _ _ hdetailing onCode onCode site access kind
        (fun retention hretention index => ?_) (fun h => absurd h hsignature)
        (fun h => absurd h hexceptions) fun h => absurd h hcode
      refine annotationType_alone hG (fun hruntime => ?_) hhidden
      exact absurd (hruntime ▸ hretention) hcompiled
    exact (hbody.within near_withInput).leads
  by_cases hruntime : kind.retention? = some .runtime
  · refine hdetailing.toNoting.leads_annotations (fun h => h.leads) near_withInput hruntime
      fun index hindex => annotationType_alone hG (fun _ type hspells => ?_) hhidden
    exact hextra type (AttributeKind.Mentions.annotation hindex hspells)
  · cases kind with
    | signature =>
      refine leads_within near_withInput (Parses.signature _ site access) fun index rest _ hbody =>
        (signatureAt_alone hG site (fun type hspells => ?_) hhidden).leads
      exact hextra type (hbody ▸ .signature rest hspells)
    | exceptions =>
      refine leads_within near_withInput (Parses.exceptions _ access)
        fun indices rest hfits hbody =>
        .forM fun index hindex => (exception_alone hG (fun found hname => ?_) hhidden).leads
      exact hextra _ (hbody ▸ .exceptions rest hfits hindex hname rfl)
    | code => exact hcode rfl
    | _ => exact hother hruntime nofun nofun nofun

/-- So can an attribute whose kind is found by its name. If the name is no text, the first decoding
fails, and nothing is said. -/
theorem attributeOf_alone {onCode : Decode Unit} {site : Site} {access : Access}
    {raw : RawAttribute} (hextra : ∀ type, raw.Mentions pool type → extra type)
    (hhidden : access.isVisible = false)
    (hcode : pool.utf8 raw.name = .ok "Code" → Passes G name V t (within raw.body onCode)) :
    Passes G name V t (attributeOf ⟨namer, none⟩ onCode site access raw) := by
  intro s _ u hs hrun
  obtain ⟨text, hname, hbody⟩ := attributeOf_eq_ok_iff.1 hrun
  have hname := (Pool.Question.utf8 raw.name).ok_of_like (hG.left hs.gathered) hname
  refine attributeBody_alone hG (fun type hmentions => ?_) hhidden (fun hkind => ?_) _ _ _ hs hbody
  · exact hextra type ⟨text, hname, hmentions⟩
  · exact hcode (AttributeKind.name_of_code hkind ▸ hname)

/-- And so can all attributes of a table. -/
theorem attributesOf_alone {onCode : Decode Unit} {site : Site} {access : Access}
    {raws : List RawAttribute}
    (hextra : ∀ raw ∈ raws, ∀ type, raw.Mentions pool type → extra type)
    (hhidden : access.isVisible = false)
    (hcode : ∀ raw ∈ raws, pool.utf8 raw.name = .ok "Code" →
      Passes G name V t (within raw.body onCode)) :
    Passes G name V t (attributesOf ⟨namer, none⟩ onCode site access raws) :=
  .forM fun raw hraw => attributeOf_alone hG (hextra raw hraw) hhidden (hcode raw hraw)

end Ahead

/-! ### Bodies that the first decoding walks through -/

/-- A call that loads a class refers to it, if the constant is the name of one. Otherwise nothing is
referred to, and the constant is forgotten all the same if it is a text. -/
theorem loadClass_eq (constant : UInt16) (s : Decoder) : loadClass ⟨namer, none⟩ constant s =
    match s.pool.stringConstant constant with
    | some text => .ok none (if Handlers.namesClass text then
        s.withGathered ((Gather.refer (.ofDotted text) 0).apply namer s.gathered) else s)
    | none => .ok (some constant) s := by
  have hload : loadClass ⟨namer, none⟩ constant s = (match s.pool.stringConstant constant with
      | some text => if Handlers.namesClass text then
          (Gather.refer (.ofDotted text) 0).step ⟨namer, none⟩ >>= fun _ => pure none
        else pure none
      | none => pure (some constant) : Decode (Option UInt16)) s := rfl
  rw [hload]
  cases s.pool.stringConstant constant with
  | none => rfl
  | some text =>
    dsimp only
    split
    · exact EStateM.bind_eq ((Gather.refer (.ofDotted text) 0).step_eq namer s) rfl
    · rfl

/-- Its name is taken down by the scribe that says what is harboured by a body. The two agree on
what makes a load. -/
theorem scribe_loads {targets : Targets} {index : UInt16} (h : targets.contain index = true)
    (constant : UInt16) (found : List String) :
    pool.scribe.act targets (some constant) (.invokeStatic index) found =
      match pool.stringConstant constant with
      | some text => .ok none (if Handlers.namesClass text then text :: found else found)
      | none => .ok (some constant) found := by
  have hact : pool.scribe.act targets (some constant) (.invokeStatic index) found =
      (match pool.stringConstant constant with
      | some text => if Handlers.namesClass text then
          pool.scribe.loaded text >>= fun _ => pure none else pure none
      | none => pure (some constant) : EStateM Fault (List String) (Option UInt16)) found := by
    simp only [Handlers.act, h]
    rfl
  rw [hact]
  cases pool.stringConstant constant with
  | none => rfl
  | some text =>
    dsimp only
    split <;> rfl

section Walks

variable (hG : Gathered.Ahead namer extra pool G)
include hG

/-- A call that loads a class has its name taken down, and nothing else has happened than that the
class was referred to. -/
theorem loadClass_takes_down {constant : UInt16} {next : Option UInt16} {s s' : Decoder}
    (hlike : s.pool.Like pool) (hrun : loadClass ⟨namer, none⟩ constant s = .ok next s') :
    ∃ texts, (∀ found : List String, (match pool.stringConstant constant with
        | some text => .ok none (if Handlers.namesClass text then text :: found else found)
        | none => .ok (some constant) found : EStateM.Result Fault (List String) (Option UInt16)) =
          .ok next (texts ++ found)) ∧
      (∀ text ∈ texts, Handlers.namesClass text = true) ∧ s'.pool.Like pool ∧
      ((∀ text ∈ texts, extra (TypeName.ofDotted text).referent) → s.Near G name V t →
        s'.Near G name V t) := by
  rw [loadClass_eq, congrFun (Pool.Question.stringConstant hlike) constant] at hrun
  cases hstring : pool.stringConstant constant with
  | none =>
    rw [hstring] at hrun
    cases hrun
    exact ⟨[], fun _ => rfl, nofun, hlike, fun _ => id⟩
  | some text =>
    rw [hstring] at hrun
    dsimp only at hrun ⊢
    by_cases hnames : Handlers.namesClass text = true
    · rw [if_pos hnames] at hrun
      simp only [if_pos hnames]
      cases hrun
      refine ⟨[text], fun _ => rfl, List.forall_mem_singleton.2 hnames, ?_, fun hextra hs => ?_⟩
      · rw [pool_withGathered]
        exact ((Gather.refer (.ofDotted text) 0).like_apply namer s.gathered).trans hlike
      · have hreferred := hG.refer (hextra text (List.mem_singleton_self text))
          (show Access.isVisible 0 = false by decide) hs.gathered
        exact near_withGathered hs hreferred
    · rw [if_neg hnames] at hrun
      simp only [if_neg hnames]
      cases hrun
      exact ⟨[], fun _ => rfl, nofun, hlike, fun _ => id⟩

/-- **An instruction has a name taken down** if it loads a class by it. If that is extra, it is as
good as nothing. -/
theorem act_takes_down {targets : Targets} {last next : Option UInt16} {action : Action}
    {s s' : Decoder} (hlike : s.pool.Like pool)
    (hrun : (handlers ⟨namer, none⟩).act targets last action s = .ok next s') :
    ∃ texts, (∀ found, pool.scribe.act targets last action found = .ok next (texts ++ found)) ∧
      (∀ text ∈ texts, Handlers.namesClass text = true) ∧ s'.pool.Like pool ∧
      ((∀ text ∈ texts, extra (TypeName.ofDotted text).referent) → s.Near G name V t →
        s'.Near G name V t) := by
  have hmeets {index : UInt16} (hmet : referClassConstant ⟨namer, none⟩ index s = .ok () s') :
      s'.pool.Like pool ∧ (s.Near G name V t → s'.Near G name V t) := by
    refine ⟨?_, fun hs => (constant_alone hG index).leads s _ s' hs hmet⟩
    cases ((Gather.constant index).step_eq namer s).symm.trans hmet
    exact ((Gather.constant index).like_apply namer s.gathered).trans hlike
  cases action with
  | load index | type index =>
    obtain ⟨_, _, hmet, hpure⟩ := EStateM.ok_of_bind hrun
    cases hpure
    obtain ⟨hlike', hnear⟩ := hmeets hmet
    exact ⟨[], fun _ => rfl, nofun, hlike', fun _ => hnear⟩
  | invoke index =>
    obtain ⟨_, _, hcall, hpure⟩ := EStateM.ok_of_bind hrun
    rw [method_eq_pure] at hcall
    cases hcall
    cases hpure
    exact ⟨[], fun _ => rfl, nofun, hlike, fun _ => id⟩
  | invokeStatic index =>
    by_cases hloads : targets.contain index = true ∧ last.isSome = true
    · obtain ⟨htarget, hlast⟩ := hloads
      obtain ⟨constant, rfl⟩ := Option.isSome_iff_exists.1 hlast
      rw [act_invokeStatic _ htarget, method_eq_pure] at hrun
      obtain ⟨_, _, hcall, hload⟩ := EStateM.ok_of_bind hrun
      cases hcall
      simp only [scribe_loads htarget]
      exact loadClass_takes_down hG hlike hload
    · rw [act_invokeStatic_of_not _ hloads, method_eq_pure] at hrun
      cases hrun
      exact ⟨[], fun found => congrFun (act_invokeStatic_of_not pool.scribe hloads) found, nofun,
        hlike, fun _ => id⟩
  | widened | other =>
    cases hrun
    exact ⟨[], fun _ => rfl, nofun, hlike, fun _ => id⟩

/-- Instructions have the names taken down of the classes that they load, by induction over the
instructions. -/
theorem follow_takes_down {targets : Targets} {last next : Option UInt16} {actions : List Action}
    {s s' : Decoder} (hlike : s.pool.Like pool)
    (hrun : (handlers ⟨namer, none⟩).follow targets last actions s = .ok next s') :
    ∃ texts,
      (∀ found, pool.scribe.follow targets last actions found = .ok next (texts ++ found)) ∧
      (∀ text ∈ texts, Handlers.namesClass text = true) ∧
      ((∀ text ∈ texts, extra (TypeName.ofDotted text).referent) → s.Near G name V t →
        s'.Near G name V t) := by
  induction actions generalizing last s with
  | nil =>
    cases hrun
    exact ⟨[], fun _ => rfl, nofun, fun _ => id⟩
  | cons action actions ih =>
    rw [Handlers.follow_cons] at hrun
    obtain ⟨middle, u, hact, hrest⟩ := EStateM.ok_of_bind hrun
    obtain ⟨first, hfirst, hnames, hlike', hstep⟩ := act_takes_down hG hlike hact
    obtain ⟨texts, htexts, hothers, hnear⟩ := ih hlike' hrest
    -- the last name that was taken down is the first in the list
    refine ⟨texts ++ first, fun found => ?_, List.forall_mem_append.2 ⟨hothers, hnames⟩,
      fun hextra hs => hnear ?_ (hstep ?_ hs)⟩
    · rw [Handlers.follow_cons, EStateM.bind_of_ok (hfirst found), htexts, List.append_assoc]
    · exact fun text htext => hextra text (List.mem_append_left _ htext)
    · exact fun text htext => hextra text (List.mem_append_right _ htext)

/-- **A walk has the names taken down** of the classes that it loads. If these are extra, it is as
good as nothing. A walk that fails says nothing of the second decoding, which does not walk. -/
theorem walk_takes_down {targets : Targets} {code : Bytes} {s s' : Decoder}
    (hlike : s.pool.Like pool)
    (hrun : (handlers ⟨namer, none⟩).walk targets code s = .ok () s') :
    ∃ texts, (∀ found, pool.scribe.walk targets code found = .ok () (texts ++ found)) ∧
      (∀ text ∈ texts, Handlers.namesClass text = true) ∧
      ((∀ text ∈ texts, extra (TypeName.ofDotted text).referent) → s.Near G name V t →
        s'.Near G name V t) := by
  simp only [Handlers.walk_eq] at hrun ⊢
  obtain ⟨next, u, hfollow, hhalt⟩ := EStateM.ok_of_bind hrun
  obtain ⟨texts, htexts, hrest⟩ := follow_takes_down hG hlike hfollow
  cases hfault : (Instruction.row code).fault with
  | none =>
    rw [hfault] at hhalt
    cases hhalt
    exact ⟨texts, fun found => EStateM.bind_eq (htexts found) rfl, hrest⟩
  | some fault =>
    rw [hfault] at hhalt
    cases hhalt

/-- **A method body that only the first decoding walks through**, if all that it comes to there is
extra: classes that are loaded by name, and what the attributes inside mention. -/
theorem within_code_alone {raw : RawAttribute} (hextra : ∀ a b, V a b → ∀ type,
    raw.Harbours pool a.targets type → extra type) :
    Passes G name V t (within raw.body (code ⟨namer, none⟩)) := by
  refine leads_within near_withInput (Parses.code _) fun code rest hfits hbody => ?_
  intro s _ s' hs hrun
  obtain ⟨_, _, hget, hrest⟩ := EStateM.ok_of_bind hrun
  cases hget
  obtain ⟨_, u, hwalk, hrest⟩ := EStateM.ok_of_bind hrest
  obtain ⟨_, v, hhandlers, hattributes⟩ := EStateM.ok_of_bind hrest
  have hharbours (type : TypeName)
      (h : (∃ text ∈ pool.loads s.targets code.code, Handlers.namesClass text = true ∧
          (TypeName.ofDotted text).referent = type) ∨
        ∃ inner ∈ code.attributes, inner.Mentions pool type) : extra type :=
    hextra _ _ hs.attention type ⟨code, rest, hfits, hbody, h⟩
  have hu : u.Near G name V t := by
    obtain ⟨texts, htexts, hnames, hnear⟩ := walk_takes_down hG (hG.left hs.gathered) hwalk
    refine hnear (fun text htext => hharbours _ (.inl ⟨text, ?_, hnames text htext, rfl⟩)) hs
    rw [Pool.loads, htexts]
    exact List.mem_append_left [] htext
  have hcaught : Passes G name V t
      (code.handlers.forM fun handler => referClassConstant ⟨namer, none⟩ handler.2) :=
    .forM fun handler _ => (constant_alone hG handler.2).leads
  have hv : v.Near G name V t := hcaught u _ v hu hhandlers
  refine attributesOf_alone hG (fun inner hinner type hmentions => ?_) (by decide)
    (fun _ _ _ => ?_) _ _ _ hv hattributes
  · exact hharbours type (.inr ⟨inner, hinner, hmentions⟩)
  · exact passes_nothing _

/-! ### Members -/

/-- A member that cannot be seen is opened by the first decoding. The classes in its descriptor are
extra, and are exposed by neither. -/
theorem openMember_alone {W : Bool → Bool → Prop} {targets : Targets} {kind : LastMember}
    {header : MemberHeader} (hW : ∀ a b, W a b → W true b)
    (hextra : ∀ type, pool.Spells header.descriptorIndex type → extra type)
    (hhidden : header.access.isVisible = false) :
    Alone G name (Attention.Turned W targets kind) t (openMember ⟨namer, none⟩ kind header) := by
  have hreading : Reading ⟨namer, none⟩ ⟨namer, none⟩ fun m _ =>
      Alone G name (Attention.Turned W targets kind) t m := reading_alone
  refine @Asking.openMember ⟨namer, none⟩ ⟨namer, none⟩ _ hreading.toAsking kind header
    (referDescriptor_alone hG hextra hhidden) (fun _ _ hs => hs)
    (fun hf => updateRecord_alone fun _ _ h => h.uniform_left hf.toUniform) (fun hkind _ => ?_) ?_
  · subst hkind
    exact .modify fun s hs => ⟨hs.gathered, hs.record, hW _ _ hs.attention.1, by simp⟩
  · exact .modify fun _ hs => ⟨hs.gathered, hs.record, hs.attention⟩

end Walks

section Hidden

variable (hG : Gathered.Ahead namer (fun _ => True) pool G)
include hG

/-- **A hidden member** that only the first decoding goes through, where everything is extra. It
stays a member that the second record does not have. -/
theorem memberOf_alone {W : Bool → Bool → Prop} {targets : Targets} {kind : LastMember}
    {raw : RawMember} (hW : ∀ a b, W a b → W true b) (hhidden : raw.access.isVisible = false) :
    Passes G name (Attention.Turned W targets kind) t (memberOf ⟨namer, none⟩ kind raw) := by
  intro s _ s' hs hrun
  rw [memberOf_eq] at hrun
  obtain ⟨header, s₁, hheader, hopens⟩ := EStateM.ok_of_bind hrun
  obtain ⟨_, s₂, hopen, hattributes⟩ := EStateM.ok_of_bind hopens
  have hhidden : header.access.isVisible = false := by
    rw [(memberHeaderOf_ok hheader).2.1]
    exact hhidden
  have hreading : Reading ⟨namer, none⟩ ⟨namer, none⟩ fun m _ =>
      Alone G name (Attention.Turned W targets kind) t m := reading_alone
  have hs₁ := (hreading.memberHeaderOf raw).leads _ _ _ hs hheader
  have hs₂ := (openMember_alone hG hW (fun _ _ => trivial) hhidden).leads _ _ _ hs₁ hopen
  have hbody {onCode : Decode Unit} {site : Site} (hcode : ∀ raw : RawAttribute,
      Passes G name (Attention.Turned W targets kind) t (within raw.body onCode)) :
      Passes G name (Attention.Turned W targets kind) t
        (attributesOf ⟨namer, none⟩ onCode site header.access raw.attributes) :=
    attributesOf_alone hG (fun _ _ _ _ => trivial) hhidden fun raw _ _ => hcode raw
  cases kind with
  | field => exact hbody (fun _ => passes_nothing _) _ _ _ hs₂ hattributes
  | method =>
    obtain ⟨_, _, hget, hattributes⟩ := EStateM.ok_of_bind hattributes
    cases hget
    refine hbody (fun raw => ?_) _ _ _ hs₂ hattributes
    split
    · exact within_code_alone hG fun _ _ _ _ _ => trivial
    · exact passes_nothing _

end Hidden

/-! ### Members that both decodings have -/

/-- The first decoding walks through method bodies if the second one does. -/
def WalksAhead (left right : Bool) : Prop := right = true → left = true

/-- A decoding that walks at least where another one does is still ahead of it when one more reason
to walk is found for both. -/
theorem WalksAhead.turn {left right orphan : Bool} (more : Bool) (h : WalksAhead left right) :
    WalksAhead (left || orphan || more) (right || orphan || more) := by
  intro hright
  rw [Bool.or_eq_true, Bool.or_eq_true] at hright ⊢
  exact hright.imp_left (Or.imp_left h)

section Both

variable (hG : Gathered.Ahead namer extra pool G) {a b : Attention}
include hG

/-- A method body through which the second decoding may not walk, though the first one does. If both
walk they walk alike; if one does, what it comes to is extra. -/
theorem code_ahead {raw : RawAttribute} (hlast : a.last = b.last)
    (hwalks : WalksAhead a.walking b.walking)
    (htargets : a.walking = true → b.walking = true → a.targets = b.targets)
    (hextra : a.walking = true → ∀ type, raw.Harbours pool a.targets type → extra type) :
    Follows Eq (Abreast G name (Attention.Are a b))
      (within raw.body (if a.walking then code ⟨namer, none⟩ else pure ()))
      (within raw.body (if b.walking then code ⟨namer, none⟩ else pure ())) := by
  by_cases hleft : a.walking = true
  · rw [if_pos hleft]
    by_cases hright : b.walking = true
    · rw [if_pos hright]
      exact .of_simulates
        (.within sameInput_abreast (code_abreast hG.toTandem hlast (htargets hleft hright)))
    · rw [if_neg hright]
      refine Follows.of_leads (unfed_within _ _) fun t => within_code_alone hG ?_
      rintro _ _ ⟨rfl, rfl⟩
      exact hextra hleft
  · rw [if_neg hleft, if_neg fun hright => hleft (hwalks hright)]
    exact nothing_abreast _ _

/-- **A member that both have** is followed, if what is only come to by walking is extra. All that
does not stand in a body is read by both. -/
theorem memberOf_ahead {kind : LastMember} {targets : Targets} {raw : RawMember}
    (hextra : kind = .method → ∀ inner ∈ raw.attributes, pool.utf8 inner.name = .ok "Code" →
      ∀ type, inner.Harbours pool targets type → extra type) :
    Follows Eq (Abreast G name (Attention.Turned WalksAhead targets kind))
      (memberOf ⟨namer, none⟩ kind raw) (memberOf ⟨namer, none⟩ kind raw) := by
  refine memberOf_abreast hG.toTandem (fun _ _ => rfl) fun header a b _ hlast hturned =>
    afterOpening_abreast hG.toTandem hlast fun hkind inner hinner hname => ?_
  obtain ⟨hwalks, htargets⟩ := hturned
  obtain ⟨hleft, hright⟩ := htargets hkind
  refine code_ahead hG hlast hwalks (fun ha hb => (hleft ha).trans (hright hb).symm) fun ha => ?_
  rw [hleft ha]
  exact hextra hkind inner hinner hname

/-- So are the members of a kind, by induction over them. -/
theorem members_ahead {kind : LastMember} {targets : Targets} {raws : List RawMember}
    (hextra : kind = .method → ∀ raw ∈ raws, ∀ inner ∈ raw.attributes,
      pool.utf8 inner.name = .ok "Code" →
        ∀ type, inner.Harbours pool targets type → extra type) :
    Follows Eq (Abreast G name (Attention.Turned WalksAhead targets kind))
      (raws.forM (memberOf ⟨namer, none⟩ kind)) (raws.forM (memberOf ⟨namer, none⟩ kind)) :=
  .forM_same fun raw hraw => memberOf_ahead hG fun hkind => hextra hkind raw hraw

end Both

end ClassFile.Decode
