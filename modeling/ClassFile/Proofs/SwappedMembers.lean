import ClassFile.Proofs.PlainMembers

/-!
# What decodings find

Two decodings go through the same member, and one of them may have gone through others before. What
the member adds to what they have found is the same but for what they had already: if they have
found the same once each is given something, they have afterwards (`ClassFile.Decoder.Balanced`).
This is so although a class constant is referred to the first time only, for what a reference to it
brings was found then.

What is found are references, imports and exposed packages, traits of the class, and whether method
bodies have to be walked through (`ClassFile.Decoder.Fact`). Packages count as far as they are
handed out for the same types at all times.
-/

namespace ClassFile

/-! ### What is gathered -/

namespace Decoder

/-- What can be found among what is gathered. -/
inductive Find where
  | reference (type : TypeName)
  | imported (package : Package)
  | exposed (package : Package)

/-- It was found. -/
def Collected.Finds (found : Collected) : Find → Prop
  | .reference type => type ∈ found.references
  | .imported package => package ∈ found.imports
  | .exposed package => found.Exposes package

namespace Find

/-- The package that it is about is handed out for the same types at all times, from a table on. -/
def Fixed (namer : Namer) (start : PackageTable) : Find → Prop
  | .reference type => namer.Fixes start (namer.packageOf type start).1
  | .imported package | .exposed package => namer.Fixes start package

/-- It is found when the type is referred to, where that is shown to other packages or not. -/
def Due (namer : Namer) (start : PackageTable) (type : TypeName) (shown : Bool) : Find → Prop
  | .reference other => type = other ∧ ∃ package, namer.Files start type package
  | .imported package => namer.Files start type package
  | .exposed package => shown = true ∧ namer.Files start type package

/-- It is found when the type is exposed, if that is shown to other packages. -/
def Shown (namer : Namer) (start : PackageTable) (type : TypeName) (shown : Bool) : Find → Prop
  | .reference _ | .imported _ => False
  | .exposed package =>
    shown = true ∧ (namer.packageOf type start).1 = package ∧ package.primitive = false

end Find

namespace Collected

variable {namer : Namer} {start : PackageTable} {found : Collected} {find : Find}

/-- A reference brings what is due: the type itself, its package, or that the package is exposed.
Whatever was found before stays found. -/
theorem finds_refer (hreaches : namer.Reaches start found.session.table)
    (hfixed : find.Fixed namer start) {type : TypeName} {access : Access} :
    (found.refer namer type access).Finds find ↔ found.Finds find ∨
      find.Due namer start type.referent (found.api.isSome && access.isVisible) := by
  cases find with
  | reference other =>
    refine (mem_references_refer access).trans (or_congr_right ?_)
    rw [and_comm]
    refine and_congr_right fun hsame => ⟨fun htakes => ?_, ?_⟩
    · exact ⟨_, (takes_of_files hreaches hfixed).1 ⟨htakes, (hfixed _ _ hreaches).2 (hsame ▸ rfl)⟩⟩
    · rintro ⟨package, hfiles⟩
      have hpackage : (namer.packageOf other start).1 = package := hsame ▸ hfiles.2.1
      exact ((takes_of_files hreaches hfixed).2 (hpackage ▸ hfiles)).1
  | imported package =>
    exact (mem_imports_refer access).trans (or_congr_right (takes_of_files hreaches hfixed))
  | exposed package =>
    refine (exposes_refer hreaches hfixed access).trans (or_congr_right ?_)
    rw [Find.Due, Bool.and_eq_true, and_assoc]

/-- What is exposed is no reference, but may be found as a package that is exposed. -/
theorem finds_expose (hreaches : namer.Reaches start found.session.table)
    (hfixed : find.Fixed namer start) {type : TypeName} {access : Access} :
    (found.expose namer type access).Finds find ↔ found.Finds find ∨
      find.Shown namer start type (found.api.isSome && access.isVisible) := by
  cases find with
  | reference other =>
    rw [Find.Shown, or_false, Finds, references_expose]
    rfl
  | imported package =>
    rw [Find.Shown, or_false, Finds, imports_expose]
    rfl
  | exposed package =>
    refine (exposes_expose hreaches hfixed access).trans (or_congr_right ?_)
    rw [Find.Shown, Bool.and_eq_true, and_assoc]

end Collected

end Decoder

namespace Gather

variable {namer : Namer} {start : PackageTable} {found : Decoder.Gathered} {op : Gather}
  {find : Decoder.Find}

/-- What was found stays found, whatever is gathered afterwards. -/
theorem finds_apply (hreaches : namer.Reaches start found.collected.session.table)
    (hfixed : find.Fixed namer start) (h : found.collected.Finds find) :
    (op.apply namer found).collected.Finds find := by
  cases op with
  | refer type access => exact (Decoder.Collected.finds_refer hreaches hfixed).2 (.inl h)
  | expose type access => exact (Decoder.Collected.finds_expose hreaches hfixed).2 (.inl h)
  | constant index =>
    dsimp only [apply]
    split
    · exact (Decoder.Collected.finds_refer hreaches hfixed).2 (.inl h)
    · exact h

end Gather

namespace Decoder.Gathered

variable {namer : Namer} {start found other : Gathered} {find : Find}

/-- **When a class constant is marked, what a reference to it brings is found.** It was brought when
the mark was set, and has not been lost since. -/
theorem Comes.finds (h : Comes namer start found) (hstart : ∀ index, ¬start.pool.Marked index)
    (hfixed : find.Fixed namer start.collected.session.table) {index : UInt16} {name : String}
    (hname : start.pool.className index = .ok name) (hmarked : found.pool.Marked index)
    (hdue : find.Due namer start.collected.session.table (TypeName.ofText name).referent false) :
    found.collected.Finds find := by
  refine h.of_marked (I := fun found => found.Finds find) hstart hname hmarked (fun hfound => ?_)
    (fun _ hfound => Gather.finds_apply hfound.reached hfixed) fun _ hfinds => ?_
  · refine (Collected.finds_refer hfound.reached hfixed).2 (.inr ?_)
    rwa [show Access.isVisible 0 = false by decide, Bool.and_false]
  · cases find with
    | reference | imported => exact hfinds
    | exposed => exact absurd hdue.1 Bool.false_ne_true

/-- **What is new to one decoding another one finds as well**, when it does the same. The only
difference between the two is which class constants were met before, and what came of those was
found at that time. -/
theorem finds_of_apply (hstart : ∀ index, ¬start.pool.Marked index)
    (hfound : Comes namer start found) (hother : Comes namer start other)
    (hpublic : found.collected.api.isSome = other.collected.api.isSome)
    (hfixed : find.Fixed namer start.collected.session.table) {op : Gather}
    (h : (op.apply namer found).collected.Finds find) :
    found.collected.Finds find ∨ (op.apply namer other).collected.Finds find := by
  cases op with
  | refer type access =>
    refine ((Collected.finds_refer hfound.reached hfixed).1 h).imp_right fun hdue => ?_
    exact (Collected.finds_refer hother.reached hfixed).2 (.inr (hpublic ▸ hdue))
  | expose type access =>
    refine ((Collected.finds_expose hfound.reached hfixed).1 h).imp_right fun hshown => ?_
    exact (Collected.finds_expose hother.reached hfixed).2 (.inr (hpublic ▸ hshown))
  | constant index =>
    dsimp only [Gather.apply] at h
    split at h
    · rename_i name hfirst
      refine ((Collected.finds_refer hfound.reached hfixed).1 h).imp_right fun hdue => ?_
      rw [show Access.isVisible 0 = false by decide, Bool.and_false] at hdue
      have hname := (Pool.Question.className index).ok_of_like hfound.like
        (Pool.markReferred_eq_some_iff.1 hfirst).2
      -- the other decoding has met the constant before, or meets it now
      refine (hother.apply (.constant index)).finds hstart hfixed hname ?_ hdue
      exact Pool.marked_of_className
        ((Pool.Question.className index).ok_of_like hother.like.symm hname)
    · exact .inl h

end Decoder.Gathered

/-! ### Decoders in balance -/

/-- What both sides are given stays in balance, if what is new to one of them is so to the other or
known to it. This is all the logic that is needed to take members in another order. -/
theorem balance_of_grows {given given' before before' after after' : Prop}
    (h : given ∨ before ↔ given' ∨ before') (hkeep : before → after) (hkeep' : before' → after')
    (hnew : after → before ∨ after') (hnew' : after' → before' ∨ after) :
    given ∨ after ↔ given' ∨ after' := by
  constructor
  · rintro (hgiven | hafter)
    · exact (h.1 (.inl hgiven)).imp_right hkeep'
    · rcases hnew hafter with hbefore | hafter'
      · exact (h.1 (.inr hbefore)).imp_right hkeep'
      · exact .inr hafter'
  · rintro (hgiven | hafter)
    · exact (h.2 (.inl hgiven)).imp_right hkeep
    · rcases hnew' hafter with hbefore | hafter'
      · exact (h.2 (.inr hbefore)).imp_right hkeep
      · exact .inr hafter'

/-- Since they had gathered that, both decodings have found the same, once each is given
something. -/
structure Decoder.Gathered.Balanced (namer : Namer) (start : Gathered) (isPublic : Bool)
    (given given' : Find → Prop) (found other : Gathered) : Prop where
  left : Comes namer start found
  right : Comes namer start other
  public_left : found.collected.api.isSome = isPublic
  public_right : other.collected.api.isSome = isPublic
  finds (find : Find) : find.Fixed namer start.collected.session.table →
    (given find ∨ found.collected.Finds find ↔ given' find ∨ other.collected.Finds find)

/-- What is found by one decoding and what is found by the other stay in balance when both gather
the same, so decodings can be kept in step by it. -/
theorem Decoder.Gathered.Balanced.tandem {namer : Namer} {start : Gathered}
    (hstart : ∀ index, ¬start.pool.Marked index) (isPublic : Bool) (given given' : Find → Prop) :
    Tandem namer start.pool (Balanced namer start isPublic given given') where
  left h := h.left.like
  right h := h.right.like
  both {found other} op h := by
    have hpublic : found.collected.api.isSome = other.collected.api.isSome :=
      h.public_left.trans h.public_right.symm
    refine ⟨h.left.apply op, h.right.apply op, ?_, ?_, fun find hfixed => ?_⟩
    · exact (Gather.isSome_api_apply namer op found).trans h.public_left
    · exact (Gather.isSome_api_apply namer op other).trans h.public_right
    · exact balance_of_grows (h.finds find hfixed) (Gather.finds_apply h.left.reached hfixed)
        (Gather.finds_apply h.right.reached hfixed)
        (finds_of_apply hstart h.left h.right hpublic hfixed)
        (finds_of_apply hstart h.right h.left hpublic.symm hfixed)

/-- The records have the same backdrop, and the same traits once each is given something. -/
structure Record.Balanced (given given' : Trait → Prop) (name : TypeName) (record other : Record) :
    Prop where
  name : record.name = name
  backdrop : record.backdrop = other.backdrop
  has (trait : Trait) : given trait ∨ record.Has trait ↔ given' trait ∨ other.Has trait

instance Record.Balanced.tandem (given given' : Trait → Prop) :
    Tandem (Record.Balanced given given') where
  left h := h.name
  right h := (congrArg Record.name h.backdrop).symm.trans h.name
  major h := (congrArg Record.major h.backdrop :)
  access h := (congrArg Record.access h.backdrop :)
  uniform {name record other f} hf h :=
    { name := (hf.name record).trans h.name
      backdrop := by rw [hf.backdrop record, hf.backdrop other, h.backdrop]
      has := fun trait => balance_of_grows (h.has trait) (hf.keeps record trait)
        (hf.keeps other trait) (hf.adds record other trait) (hf.adds other record trait) }
  besides {name record other f g} hf hg h :=
    { name := (hf.headed.name record).trans h.name
      backdrop := by rw [hf.backdrop, hg.backdrop, h.backdrop]
      has := fun trait => by rw [hf.has, hg.has]; exact h.has trait }

namespace Decoder

/-- What a decoding can come to know. -/
inductive Fact where
  | found (find : Find)
  | trait (trait : Record.Trait)
  /-- Method bodies have to be walked through. -/
  | walks

/-- The packages that it is about are handed out for the same types at all times. -/
def Fact.Fixed (namer : Namer) (start : PackageTable) : Fact → Prop
  | .found find => find.Fixed namer start
  | .trait _ | .walks => True

/-- The decoding has come to know it. -/
def Knows (s : Decoder) : Fact → Prop
  | .found find => s.collected.Finds find
  | .trait trait => ∀ record ∈ s.record, record.Has trait
  | .walks => s.walking = true

/-- Where a decoder is when it goes through the members of a kind. -/
structure Place where
  start : Gathered
  isPublic : Bool
  name : TypeName
  backdrop : Option Record
  kind : LastMember
  walking : Bool
  targets : Targets
  input : Input

/-- The decoder is there. Whether it walks through bodies is settled when it comes to the
methods. -/
structure Stands (namer : Namer) (place : Place) (s : Decoder) : Prop where
  comes : Gathered.Comes namer place.start s.gathered
  isPublic : s.api.isSome = place.isPublic
  name : ∀ record ∈ s.record, record.name = place.name
  backdrop : s.record.map Record.backdrop = place.backdrop
  walking : place.kind = .method → s.walking = place.walking
  targets : place.kind = .method → s.walking = true → s.targets = place.targets
  input : s.input = place.input

/-- The decoders are at the same place, and know the same once each is given something. -/
structure Balanced (namer : Namer) (place : Place) (given given' : Fact → Prop) (s t : Decoder) :
    Prop where
  left : s.Stands namer place
  right : t.Stands namer place
  knows (fact : Fact) : fact.Fixed namer place.start.collected.session.table →
    (given fact ∨ s.Knows fact ↔ given' fact ∨ t.Knows fact)

/-- How they are in step. -/
abbrev Balancing (namer : Namer) (place : Place) (given given' : Fact → Prop) :
    Decoder → Decoder → Prop :=
  InStep (Gathered.Balanced namer place.start place.isPublic (fun find => given (.found find))
      fun find => given' (.found find))
    (Record.Balanced (fun trait => given (.trait trait)) fun trait => given' (.trait trait))
      place.name
    (Attention.Turned (fun walking walking' =>
        (given .walks ∨ walking = true ↔ given' .walks ∨ walking' = true) ∧
        (place.kind = .method → walking = place.walking ∧ walking' = place.walking))
      place.targets place.kind)

variable {namer : Namer} {place : Place} {given given' : Fact → Prop} {s t : Decoder}

/-- Decoders in balance are in step, with the balance for what they have gathered. -/
theorem Balanced.balancing (h : s.Balanced namer place given given' t) :
    s.Balancing namer place given given' t where
  gathered := ⟨h.left.comes, h.right.comes, h.left.isPublic, h.right.isPublic,
    fun find hfixed => h.knows (.found find) hfixed⟩
  record := by
    have hbackdrop := h.left.backdrop.trans h.right.backdrop.symm
    have hhas (trait : Record.Trait) := h.knows (.trait trait) trivial
    have hname := h.left.name
    dsimp only [Knows] at hhas
    cases hs : s.record with
    | none =>
      rw [hs] at hbackdrop
      rw [Option.map_eq_none_iff.1 hbackdrop.symm]
      exact .none
    | some record =>
      rw [hs] at hbackdrop hhas hname
      obtain ⟨other, ht, hsame⟩ := Option.map_eq_some_iff.1 hbackdrop.symm
      rw [ht] at hhas ⊢
      refine .some ⟨hname record rfl, hsame.symm, fun trait => ?_⟩
      simpa using hhas trait
  attention := ⟨⟨h.knows .walks trivial, fun hkind =>
    ⟨h.left.walking hkind, h.right.walking hkind⟩⟩,
    fun hkind => ⟨h.left.targets hkind, h.right.targets hkind⟩⟩
  input := h.left.input.trans h.right.input.symm

/-- Decoders in step are at the same place, if one of them is still there. The other one has read
the same input, and its record is of the same class. -/
theorem Balancing.balanced (h : s.Balancing namer place given given' t)
    (hinput : s.input = place.input) (hbackdrop : s.record.map Record.backdrop = place.backdrop) :
    s.Balanced namer place given given' t := by
  obtain ⟨⟨hgathered, hrecord, ⟨hwalks, hstill⟩, htargets⟩, hsame⟩ := h
  have hboth : t.record.map Record.backdrop = s.record.map Record.backdrop ∧
      (∀ record ∈ s.record, record.name = place.name) ∧
      (∀ record ∈ t.record, record.name = place.name) ∧
      ∀ trait, given (.trait trait) ∨ s.Knows (.trait trait) ↔
        given' (.trait trait) ∨ t.Knows (.trait trait) := by
    dsimp only [Knows]
    generalize s.record = record at hrecord
    generalize t.record = other at hrecord
    cases hrecord with
    | none => simp
    | @some record other hrecord =>
      have hright : other.name = place.name := Record.Tandem.right hrecord
      simp [hrecord.name, hright, hrecord.backdrop, hrecord.has]
  obtain ⟨hbackdrops, hname, hname', htraits⟩ := hboth
  refine ⟨⟨hgathered.left, hgathered.public_left, hname, hbackdrop, fun hkind => (hstill hkind).1,
      fun hkind => (htargets hkind).1, hinput⟩,
    ⟨hgathered.right, hgathered.public_right, hname', hbackdrops.trans hbackdrop,
      fun hkind => (hstill hkind).2, fun hkind => (htargets hkind).2, hsame.symm.trans hinput⟩,
    fun fact hfixed => ?_⟩
  cases fact with
  | found find => exact hgathered.finds find hfixed
  | trait trait => exact htraits trait
  | walks => exact hwalks

end Decoder

/-! ### Members in any order -/

namespace Decode

open Decoder

variable {namer : Namer} {place : Place} {given given' : Fact → Prop}

/-- Nothing is given. -/
abbrev Level (namer : Namer) (place : Place) : Decoder → Decoder → Prop :=
  Balanced namer place (fun _ => False) fun _ => False

section Members

variable (hstart : ∀ index, ¬place.start.pool.Marked index)
include hstart

/-- **A plain member keeps two decodings in balance.** Both go through it in the same way, whatever
they went through before. -/
theorem memberOf_balanced {raw : RawMember} (hplain : raw.Plain place.start.pool)
    (hfits : RawMember.form.Fits raw) : Follows Eq (Balanced namer place given given')
      (memberOf ⟨namer, none⟩ place.kind raw) (memberOf ⟨namer, none⟩ place.kind raw) := by
  intro s t _ s' hst hrun
  have hsame : Follows Eq (Balancing namer place given given')
      (memberOf ⟨namer, none⟩ place.kind raw) (memberOf ⟨namer, none⟩ place.kind raw) :=
    memberOf_same (Gathered.Balanced.tandem hstart _ _ _) (fun hkind => by simp [hkind])
      (fun hkind _ _ h => (h.2 hkind).1.trans (h.2 hkind).2.symm) raw
  obtain ⟨_, t', hrun', rfl, hnext⟩ := hsame hst.balancing hrun
  have hbacks : s'.Backs place.start.pool place.backdrop :=
    memberOf_backs hplain s _ s' ⟨hst.left.comes.like, hst.left.backdrop⟩ hrun
  have hinput : s'.input = s.input := input_of_unfed (unfed_memberOf _ hfits) hrun
  exact ⟨_, t', hrun', rfl, hnext.balanced (hinput.trans hst.left.input) hbacks.record⟩

/-- What was known before a member is known after it: nothing that was found is lost. -/
theorem knows_memberOf {raw : RawMember} (hplain : raw.Plain place.start.pool)
    (hfits : RawMember.form.Fits raw) {s s' : Decoder} (hs : s.Stands namer place)
    (hrun : memberOf ⟨namer, none⟩ place.kind raw s = .ok () s') {fact : Fact}
    (hfixed : fact.Fixed namer place.start.collected.session.table) (h : s.Knows fact) :
    s'.Knows fact := by
  -- nothing changes if the decoding is given what it knew before
  have hsame : s.Balanced namer place s.Knows (fun _ => False) s :=
    ⟨hs, hs, fun _ _ => by rw [or_self, false_or]⟩
  obtain ⟨_, t, hrun', -, hnext⟩ := memberOf_balanced hstart hplain hfits hsame hrun
  cases hrun.symm.trans hrun'
  exact ((hnext.knows fact hfixed).1 (.inl h)).resolve_left id

/-- **Two plain members may be taken in either order.** The facts that one of them brings are given
to the decoding that has yet to come to it, so both sides have been given both members in the
end. -/
theorem members_swapped {raw other : RawMember} (hraw : raw.Plain place.start.pool)
    (hfits : RawMember.form.Fits raw) (hother : other.Plain place.start.pool)
    (hfits' : RawMember.form.Fits other) : Follows Eq (Level namer place)
      (memberOf ⟨namer, none⟩ place.kind raw >>= fun _ => memberOf ⟨namer, none⟩ place.kind other)
      (memberOf ⟨namer, none⟩ place.kind other >>= fun _ =>
        memberOf ⟨namer, none⟩ place.kind raw) := by
  intro s t _ s₂ hst hrun
  obtain ⟨_, s₁, hfirst, hsecond⟩ := EStateM.ok_of_bind hrun
  have hlevel {fact : Fact} (hfixed : fact.Fixed namer place.start.collected.session.table) :
      s.Knows fact ↔ t.Knows fact := by
    have hknows := hst.knows fact hfixed
    rwa [false_or, false_or] at hknows
  -- the other member after the first one, and without it
  have hsame : Level namer place s s := ⟨hst.left, hst.left, fun _ _ => .rfl⟩
  obtain ⟨_, _, -, -, ⟨hstands, -, -⟩⟩ := memberOf_balanced hstart hraw hfits hsame hfirst
  have hahead : s₁.Balanced namer place (fun _ => False) s₁.Knows t := by
    refine ⟨hstands, hst.right, fun fact hfixed => ?_⟩
    rw [false_or]
    refine ⟨.inl, fun h => h.elim id fun ht => ?_⟩
    exact knows_memberOf hstart hraw hfits hst.left hfirst hfixed ((hlevel hfixed).2 ht)
  obtain ⟨_, t₁, hfirst', rfl, hnext⟩ := memberOf_balanced hstart hother hfits' hahead hsecond
  -- the first member after the other one, and without it
  have hbehind : s.Balanced namer place t₁.Knows (fun _ => False) t₁ := by
    refine ⟨hst.left, hnext.right, fun fact hfixed => ?_⟩
    rw [false_or]
    refine ⟨fun h => h.elim id fun hs => ?_, .inl⟩
    exact knows_memberOf hstart hother hfits' hst.right hfirst' hfixed ((hlevel hfixed).1 hs)
  obtain ⟨_, t₂, hsecond', rfl, hend⟩ := memberOf_balanced hstart hraw hfits hbehind hfirst
  refine ⟨_, t₂, EStateM.bind_eq hfirst' hsecond', rfl, hnext.left, hend.right,
    fun fact hfixed => ?_⟩
  rw [false_or, false_or]
  calc s₂.Knows fact
      ↔ s₁.Knows fact ∨ t₁.Knows fact := by rw [← hnext.knows fact hfixed, false_or]
    _ ↔ t₁.Knows fact ∨ s₁.Knows fact := or_comm
    _ ↔ t₂.Knows fact := by rw [hend.knows fact hfixed, false_or]

/-- **Plain members may be taken in any order**, since every order comes from another by exchanging
neighbours. -/
theorem members_permuted {raws raws' : List RawMember} (h : raws.Perm raws')
    (hplain : ∀ raw ∈ raws, raw.Plain place.start.pool)
    (hfits : ∀ raw ∈ raws, RawMember.form.Fits raw) : Follows Eq (Level namer place)
      (raws.forM (memberOf ⟨namer, none⟩ place.kind))
      (raws'.forM (memberOf ⟨namer, none⟩ place.kind)) := by
  have hraws (raw : RawMember) (hraw : raw ∈ raws) :
      raw.Plain place.start.pool ∧ RawMember.form.Fits raw := ⟨hplain raw hraw, hfits raw hraw⟩
  refine .forM_perm h hraws (fun h => ⟨h.left, h.left, fun _ _ => .rfl⟩)
    (fun h h' => ⟨h.left, h'.right, fun fact hfixed => ?_⟩)
    (fun raw hraw => memberOf_balanced hstart hraw.1 hraw.2)
    (fun raw other hraw hother => members_swapped hstart hraw.1 hraw.2 hother.1 hother.2)
  exact (h.knows fact hfixed).trans (h'.knows fact hfixed)

end Members

end Decode

end ClassFile
