import ClassFile.Proofs.Invariant
import ClassFile.Proofs.Parametric

/-!
# What is collected only grows

While a class is decoded without a listener, nothing that was collected is taken away again.
A type that was referred to stays so, and the package that was handed out for it stays its
package if the namer is *steady* (`ClassFile.Namer.Steady`). The members that are on record
keep their headers, and their signatures too, but for the last one of the kind that is being
read.

`ClassFile.Decoder.Grows` says this of what was collected and `ClassFile.Decoder.Extends` of
the members as well. Both relate the states before and after a step, so the induction over the
readers of attributes is that of `ClassFile.Decode.Lockstep`
(`ClassFile.Decode.Extending.lockstep`). Signatures are the one place where that is not enough:
what is stored there was referred to before.
-/

namespace ClassFile

/-! ### Steady namers -/

namespace Namer

variable {namer : Namer}

/-- The tables that come after a table when packages are asked for. -/
inductive Reaches (namer : Namer) : PackageTable → PackageTable → Prop where
  | refl (table : PackageTable) : Reaches namer table table
  | ask {table later : PackageTable} (type : TypeName) : Reaches namer table later →
    Reaches namer table (namer.packageOf type later).2

/-- Tables are reached one after the other: what was asked first, and what was asked then. -/
theorem Reaches.trans {first second third : PackageTable} (h : namer.Reaches first second)
    (h' : namer.Reaches second third) : namer.Reaches first third := by
  induction h' with
  | refl => exact h
  | ask type _ ih => exact .ask type ih

/-- From a table on, the package of a type will always be the same. -/
def Settled (namer : Namer) (table : PackageTable) (type : TypeName) (package : Package) : Prop :=
  ∀ later, namer.Reaches table later → (namer.packageOf type later).1 = package

/-- What is settled stays settled, for a later table leads to fewer tables. -/
theorem Settled.mono {table later : PackageTable} {type : TypeName} {package : Package}
    (h : namer.Settled table type package) (hlater : namer.Reaches table later) :
    namer.Settled later type package := fun last hlast => h last (hlater.trans hlast)

/-- Who was once asked for the package of a type gives the same answer for ever. -/
def Steady (namer : Namer) : Prop :=
  ∀ type table, namer.Settled (namer.packageOf type table).2 type (namer.packageOf type table).1

/-- An answer that depends on the type alone is steady, without looking at the tables that may
come. -/
theorem exact_steady : exact.Steady := fun _ _ _ _ => rfl

/-- Whoever holds the entry of the primitive package keeps it. It is the only part of a table that
requests can change, and they change it once. -/
theorem holder_of_reaches {table later : PackageTable} {package : Package}
    (h : shared.Reaches table later) (hholder : table.holder = some package) :
    later.holder = some package := by
  induction h with
  | refl => exact hholder
  | ask type _ ih =>
    change (PackageTable.handOut _ _).2.holder = _
    rw [PackageTable.handOut]
    split
    · rw [ih]
      exact ih
    · exact ih

/-- The first of a name answers for it from then on. This is why the usual namer is steady, though
it does not compute packages. -/
theorem shared_steady : shared.Steady := by
  intro type table later hlater
  change (PackageTable.handOut _ _).1 = (PackageTable.handOut _ _).1
  change shared.Reaches (PackageTable.handOut _ _).2 _ at hlater
  rw [PackageTable.handOut] at hlater ⊢
  split
  · rename_i hkey
    rw [if_pos hkey] at hlater
    cases hholder : table.holder with
    | none =>
      rw [hholder] at hlater
      rw [holder_of_reaches hlater rfl, PackageTable.handOut, if_pos hkey, hholder]
    | some package =>
      rw [hholder] at hlater
      rw [holder_of_reaches hlater hholder, PackageTable.handOut, if_pos hkey, hholder]
  · rename_i hkey
    rw [PackageTable.handOut, if_neg hkey]

end Namer

/-! ### What was collected -/

/-- Marking a class does not change what texts there are, for it replaces a class constant by a
class constant. -/
theorem Pool.utf8_markReferred (pool : Pool) (marked index : UInt16) (text : String) :
    (pool.markReferred marked).2.utf8 index = .ok text ↔ pool.utf8 index = .ok text := by
  have htext (pool : Pool) : pool.utf8 index = .ok text ↔
      pool.entries[index.toNat]? = some (.utf8 text) := by
    rw [Pool.utf8, Pool.entry]
    cases hentry : pool.entries[index.toNat]? with
    | none => exact ⟨fun h => (by cases h), fun h => (by cases h)⟩
    | some found =>
      cases found with
      | utf8 other =>
        change Except.ok other = Except.ok text ↔ _
        simp
      | _ => exact ⟨fun h => (by cases h), fun h => (by cases h)⟩
  rw [htext, htext, Pool.markReferred]
  split
  · rename_i name hname
    change (pool.entries.setIfInBounds marked.toNat _)[index.toNat]? = _ ↔ _
    rw [Array.getElem?_setIfInBounds]
    split
    · rename_i hsame
      rw [← hsame, hname]
      split <;> simp
    · exact .rfl
  · exact .rfl

namespace Decoder

/-- A type was referred to by something with these flags, if it can be referred to at all: it
is among the references, and its package among the exposed ones if the flags are visible and
the class is public. -/
def Referred (namer : Namer) (access : Access) (type : TypeName) (s : Decoder) : Prop :=
  type.isPrimitive = true ∨ ∃ package, namer.Settled s.session.table type package ∧
    (package.primitive = true ∨ type ∈ s.references ∧
      (access.isVisible = true → ∀ api, s.api = some api → package ∈ api))

/-- All classes that a text names were referred to. -/
def Heard (namer : Namer) (access : Access) (text : String) (s : Decoder) : Prop :=
  ∀ name ∈ (Signature.scan text).names, s.Referred namer access (TypeName.ofText name).referent

/-- Only what can be referred to was referred to. -/
def Sound (namer : Namer) (s : Decoder) : Prop :=
  ∀ type ∈ s.references, type.isPrimitive = false ∧
    ∃ package, namer.Settled s.session.table type package ∧ package.primitive = false

/-- Nothing that was collected is lost, and the texts of the pool are the same. -/
structure Grows (namer : Namer) (s t : Decoder) : Prop where
  table : namer.Reaches s.session.table t.session.table
  references : ∀ type ∈ s.references, type ∈ t.references
  sound : s.Sound namer → t.Sound namer
  isSome_api : t.api.isSome = s.api.isSome
  api : ∀ earlier later, s.api = some earlier → t.api = some later →
    ∀ package ∈ earlier, package ∈ later
  utf8 (index : UInt16) (text : String) :
    t.pool.utf8 index = .ok text ↔ s.pool.utf8 index = .ok text

namespace Grows

variable {namer : Namer} {s t u : Decoder}

theorem refl (namer : Namer) (s : Decoder) : s.Grows namer s where
  table := .refl _
  references _ h := h
  sound h := h
  isSome_api := rfl
  api earlier later hs ht package h := by
    rw [hs] at ht
    cases ht
    exact h
  utf8 _ _ := .rfl

/-- What grows, and then grows further, has grown. The tables are those that were reached. -/
theorem trans (h : s.Grows namer t) (h' : t.Grows namer u) : s.Grows namer u where
  table := h.table.trans h'.table
  references type hs := h'.references type (h.references type hs)
  sound hs := h'.sound (h.sound hs)
  isSome_api := h'.isSome_api.trans h.isSome_api
  api earlier later hs hu package hmem := by
    have hsome : t.api.isSome = true := by rw [h.isSome_api, hs]; rfl
    obtain ⟨middle, ht⟩ := Option.isSome_iff_exists.1 hsome
    exact h'.api middle later ht hu package (h.api earlier middle hs ht package hmem)
  utf8 index text := (h'.utf8 index text).trans (h.utf8 index text)

/-- Nothing happens to what was collected if the parts that hold it stay: the session, the
references, the exposed packages and the pool. -/
theorem of_eq (hsession : t.session = s.session) (hreferences : t.references = s.references)
    (hapi : t.api = s.api) (hpool : t.pool = s.pool) : s.Grows namer t where
  table := hsession ▸ .refl _
  references type h := hreferences ▸ h
  sound h type htype := by
    rw [hreferences] at htype
    rw [hsession]
    exact h type htype
  isSome_api := by rw [hapi]
  api earlier later hs ht package hmem := by
    rw [hapi, hs] at ht
    cases ht
    exact hmem
  utf8 index text := by rw [hpool]

/-- A type that was referred to stays so: it is not taken out of the references, and its package is
the one that was settled. -/
theorem referred (h : s.Grows namer t) {access : Access} {type : TypeName}
    (hs : s.Referred namer access type) : t.Referred namer access type := by
  rcases hs with hprimitive | ⟨package, hsettled, hpackage⟩
  · exact .inl hprimitive
  refine .inr ⟨package, hsettled.mono h.table, hpackage.imp_right ?_⟩
  rintro ⟨hmem, hexposed⟩
  refine ⟨h.references type hmem, fun hvisible later hlater => ?_⟩
  have hsome : s.api.isSome = true := by rw [← h.isSome_api, hlater]; rfl
  obtain ⟨earlier, hearlier⟩ := Option.isSome_iff_exists.1 hsome
  exact h.api earlier later hearlier hlater package (hexposed hvisible earlier hearlier)

/-- The names of a text that was heard stay heard. -/
theorem heard (h : s.Grows namer t) {access : Access} {text : String}
    (hs : s.Heard namer access text) : t.Heard namer access text :=
  fun name hname => h.referred (hs name hname)

end Grows

/-- What was referred to by anything was referred to, whatever its flags. Flags decide only whether
the package is exposed. -/
theorem Heard.hidden {namer : Namer} {access : Access} {text : String} {s : Decoder}
    (h : s.Heard namer access text) : s.Heard namer 0 text := by
  intro name hname
  rcases h name hname with hprimitive | ⟨package, hsettled, hpackage⟩
  · exact .inl hprimitive
  · exact .inr ⟨package, hsettled, hpackage.imp_right fun ⟨hmem, _⟩ => ⟨hmem, nofun⟩⟩

/-! ### Members -/

/-- The member that attributes are read for: the last one of its kind. -/
def Current (s : Decoder) (kind : LastMember) (i : Nat) : Prop :=
  s.last = some kind ∧ i + 1 = (s.members kind).size

/-- What was collected grows, and the members stay as they are, but for what attributes tell of
the current one. If it gets another signature, then one that is allowed, and whose names were
referred to. -/
structure Extends (namer : Namer) (allowed : String → Prop) (s t : Decoder) : Prop
    extends s.Grows namer t where
  last : t.last = s.last
  access : t.record.map Record.access = s.record.map Record.access
  size (kind : LastMember) : (t.members kind).size = (s.members kind).size
  member (kind : LastMember) (i : Nat) (earlier : Member) :
    (s.members kind)[i]? = some earlier → ∃ later, (t.members kind)[i]? = some later ∧
      later.access = earlier.access ∧ later.name = earlier.name ∧
      later.descriptor = earlier.descriptor ∧
      (later.signature = earlier.signature ∨ s.Current kind i ∧
        ∃ text, later.signature = some text ∧ allowed text ∧ t.Heard namer 0 text)

namespace Extends

variable {namer : Namer} {allowed : String → Prop} {s t u : Decoder}

/-- The members stay as they are if the record keeps them. Then only what was collected grows. -/
theorem of_members (h : s.Grows namer t) (hlast : t.last = s.last)
    (haccess : t.record.map Record.access = s.record.map Record.access)
    (hmembers : ∀ kind, t.members kind = s.members kind) : s.Extends namer allowed t where
  toGrows := h
  last := hlast
  access := haccess
  size kind := by rw [hmembers]
  member kind i earlier hearlier :=
    ⟨earlier, by rw [hmembers, hearlier], rfl, rfl, rfl, .inl rfl⟩

/-- Growth is all there is to say if neither the record nor the member changes. -/
theorem of_record (h : s.Grows namer t) (hlast : t.last = s.last) (hrecord : t.record = s.record) :
    s.Extends namer allowed t :=
  of_members h hlast (by rw [hrecord]) fun kind => by rw [members, members, hrecord]

theorem refl (namer : Namer) (allowed : String → Prop) (s : Decoder) :
    s.Extends namer allowed s := of_record (.refl namer s) rfl rfl

/-- Members are kept over two stretches. If the signature of the last member is another one in the
end, it was stored in one of the two. -/
theorem trans (h : s.Extends namer allowed t) (h' : t.Extends namer allowed u) :
    s.Extends namer allowed u where
  toGrows := h.toGrows.trans h'.toGrows
  last := h'.last.trans h.last
  access := h'.access.trans h.access
  size kind := (h'.size kind).trans (h.size kind)
  member kind i earlier hearlier := by
    obtain ⟨middle, hmiddle, haccess, hname, hdescriptor, hsignature⟩ :=
      h.member kind i earlier hearlier
    obtain ⟨later, hlater, haccess', hname', hdescriptor', hsignature'⟩ :=
      h'.member kind i middle hmiddle
    refine ⟨later, hlater, haccess'.trans haccess, hname'.trans hname,
      hdescriptor'.trans hdescriptor, ?_⟩
    rcases hsignature' with hsame | ⟨⟨hlast, hsize⟩, hnew⟩
    · rcases hsignature with hsame' | ⟨hcurrent, text, htext, hallowed, hheard⟩
      · exact .inl (hsame.trans hsame')
      · exact .inr ⟨hcurrent, text, hsame.trans htext, hallowed, h'.heard hheard⟩
    · refine .inr ⟨⟨?_, ?_⟩, hnew⟩
      · rw [← h.last, hlast]
      · rw [hsize, h.size]

/-- Each member was there before, with the same name, flags and descriptor. Only its signature may
be another one. -/
theorem earlier (h : s.Extends namer allowed t) {kind : LastMember} {i : Nat} {later : Member}
    (hlater : (t.members kind)[i]? = some later) :
    ∃ earlier, (s.members kind)[i]? = some earlier ∧ later.access = earlier.access ∧
      later.name = earlier.name ∧ later.descriptor = earlier.descriptor ∧
      (later.signature = earlier.signature ∨ s.Current kind i ∧
        ∃ text, later.signature = some text ∧ allowed text ∧ t.Heard namer 0 text) := by
  have hlt : i < (s.members kind).size := by
    rw [← h.size]
    exact (Array.getElem?_eq_some_iff.1 hlater).1
  obtain ⟨found, hfound, hrest⟩ := h.member kind i _ (Array.getElem?_eq_getElem hlt)
  rw [hlater] at hfound
  cases hfound
  exact ⟨_, Array.getElem?_eq_getElem hlt, hrest⟩

end Extends

end Decoder

namespace Decode

open Decoder

variable {namer : Namer} {allowed : String → Prop} {α β : Type}

/-- Whether or not the step succeeds, what was collected grows and the members stay. -/
def Extending (namer : Namer) (allowed : String → Prop) (m : Decode α) : Prop :=
  ∀ s₀ : Decoder, Keeps (s₀.Extends namer allowed) (fun _ => True) m

namespace Extending

theorem modify {f : Decoder → Decoder} (h : ∀ s : Decoder, s.Extends namer allowed (f s)) :
    Extending namer allowed (modify f) :=
  fun _ => Keeps.modify fun s hs => hs.trans (h s)

theorem ok {m : Decode α} (hm : Extending namer allowed m) {s t : Decoder} {value : α}
    (h : m s = .ok value t) : s.Extends namer allowed t := by
  have hrun := hm s s (.refl ..)
  rwa [h] at hrun

end Extending

/-! ### References -/

theorem grows_exposed (namer : Namer) (package : Package) (s : Decoder) :
    s.Grows namer { s with api := s.api.map (·.insert package) } where
  table := .refl _
  references _ h := h
  sound h := h
  isSome_api := Option.isSome_map ..
  api earlier later hs ht other hmem := by
    rw [hs] at ht
    cases ht
    exact Std.ExtTreeSet.mem_insert.2 (.inr hmem)
  utf8 _ _ := .rfl

/-- The package of a type is asked for, and then it is settled by the steadiness of the namer. -/
theorem grows_asked (namer : Namer) (type : TypeName) (s : Decoder) : s.Grows namer
    { s with session := { s.session with table := (namer.packageOf type s.session.table).2 } } where
  table := .ask type (.refl _)
  references _ h := h
  sound h other hmem := by
    obtain ⟨hprimitive, package, hsettled, hpackage⟩ := h other hmem
    exact ⟨hprimitive, package, hsettled.mono (.ask type (.refl _)), hpackage⟩
  isSome_api := rfl
  api earlier later hs ht other hmem := by
    rw [hs] at ht
    cases ht
    exact hmem
  utf8 _ _ := .rfl

/-- A type whose package is settled and ordinary is put among the references, and is referred to
from then on. -/
theorem grows_referred {type : TypeName} {package : Package} {s : Decoder}
    (htype : type.isPrimitive = false) (hsettled : namer.Settled s.session.table type package)
    (hpackage : package.primitive = false) :
    s.Grows namer { s with references := s.references.insert type } where
  table := .refl _
  references _ h := Std.ExtTreeSet.mem_insert.2 (.inr h)
  sound h other hmem := by
    rcases Std.ExtTreeSet.mem_insert.1 hmem with hsame | hmem
    · obtain rfl := Std.LawfulEqOrd.eq_of_compare hsame
      exact ⟨htype, package, hsettled, hpackage⟩
    · exact h other hmem
  isSome_api := rfl
  api earlier later hs ht other hmem := by
    rw [hs] at ht
    cases ht
    exact hmem
  utf8 _ _ := .rfl

/-- A package is exposed if the flags are visible. If the class is not public there is no set of
exposed packages, and nothing to say. -/
theorem grows_exposePackage (namer : Namer) (package : Package) (access : Access) (s : Decoder) :
    ∃ t, exposePackage package access s = .ok () t ∧ s.Grows namer t ∧
      (access.isVisible = true → ∀ api, t.api = some api → package ∈ api) ∧
      t.references = s.references ∧ t.record = s.record ∧ t.last = s.last := by
  refine ⟨_, rfl, ?_⟩
  split
  · refine ⟨grows_exposed namer package s, fun _ api hapi => ?_, rfl, rfl, rfl⟩
    obtain ⟨earlier, -, rfl⟩ := Option.map_eq_some_iff.1 hapi
    exact Std.ExtTreeSet.mem_insert_self
  · rename_i hvisible
    exact ⟨.refl namer s, fun h => absurd h hvisible, rfl, rfl, rfl⟩

/-- Whatever is referred to was referred to afterwards, and nothing but what is collected changes. A
primitive type passes for one that was referred to. -/
theorem refer_ok (hsteady : namer.Steady) (type : TypeName) (access : Access) (s : Decoder) :
    ∃ t, refer ⟨namer, none⟩ type access s = .ok () t ∧ s.Grows namer t ∧
      t.Referred namer access type.referent ∧ t.record = s.record ∧ t.last = s.last := by
  rw [refer]
  by_cases hprimitive : type.referent.isPrimitive = true
  · rw [if_pos hprimitive]
    exact ⟨s, rfl, .refl namer s, .inl hprimitive, rfl, rfl⟩
  rw [if_neg hprimitive]
  let answer := namer.packageOf type.referent s.session.table
  let asked : Decoder := { s with session := { s.session with table := answer.2 } }
  have hasked : s.Grows namer asked := grows_asked namer type.referent s
  have hsettled : namer.Settled asked.session.table type.referent answer.1 := hsteady _ _
  -- the package is asked for, whether or not the type is kept
  by_cases hpackage : answer.1.primitive = true
  · refine ⟨asked, ?_, hasked, .inr ⟨answer.1, hsettled, .inl hpackage⟩, rfl, rfl⟩
    refine EStateM.bind_eq rfl ?_
    rw [if_pos hpackage]
    rfl
  let kept : Decoder := { asked with references := asked.references.insert type.referent }
  have hkept : asked.Grows namer kept :=
    grows_referred (Bool.not_eq_true _ ▸ hprimitive) hsettled (Bool.not_eq_true _ ▸ hpackage)
  obtain ⟨exposed, hrun, hexposed, hmem, hreferences, hrecord, hlast⟩ :=
    grows_exposePackage namer answer.1 access kept
  let done : Decoder := { exposed with imports := exposed.imports.insert answer.1 }
  have hdone : exposed.Grows namer done := .of_eq rfl rfl rfl rfl
  have hall := (hasked.trans hkept).trans (hexposed.trans hdone)
  refine ⟨done, ?_, hall, .inr ⟨answer.1, ?_, .inr ⟨?_, hmem⟩⟩, hrecord, hlast⟩
  · refine EStateM.bind_eq rfl ?_
    rw [if_neg hpackage]
    exact EStateM.bind_eq rfl (EStateM.bind_eq hrun rfl)
  · exact hsettled.mono (hkept.trans (hexposed.trans hdone)).table
  · change type.referent ∈ exposed.references
    rw [hreferences]
    exact Std.ExtTreeSet.mem_insert_self

/-! ### The current member -/

/-- The current member may get another signature if the names in it were referred to. The other
members, and those of the other kind, keep theirs. -/
theorem extends_updateLast {f : Member → Member} {s : Decoder} {last : LastMember}
    (hlast : s.last = some last) (haccess : ∀ member, (f member).access = member.access)
    (hname : ∀ member, (f member).name = member.name)
    (hdescriptor : ∀ member, (f member).descriptor = member.descriptor)
    (hsignature : ∀ member, (f member).signature = member.signature ∨
      ∃ text, (f member).signature = some text ∧ allowed text ∧ s.Heard namer 0 text) :
    s.Extends namer allowed { s with record := s.record.map (·.updateLast last f) } := by
  let t : Decoder := { s with record := s.record.map (·.updateLast last f) }
  have hgrows : s.Grows namer t := .of_eq rfl rfl rfl rfl
  have hmembers (kind : LastMember) : t.members kind =
      if last = kind then (s.members kind).modify ((s.members kind).size - 1) f
      else s.members kind := s.members_updateLast last kind f
  refine { hgrows with last := rfl, access := ?_, size := fun kind => ?_, member := ?_ }
  · change (s.record.map _).map Record.access = _
    rw [Option.map_map]
    exact congrArg s.record.map (funext fun record => by cases last <;> rfl)
  · rw [hmembers]
    split
    · exact Array.size_modify
    · rfl
  · intro kind i earlier hearlier
    rw [hmembers]
    -- of all members only the last one of its kind is changed
    by_cases hchanged : last = kind ∧ (s.members kind).size - 1 = i
    · obtain ⟨rfl, hi⟩ := hchanged
      have hsize : i + 1 = (s.members last).size := by
        have hlt := (Array.getElem?_eq_some_iff.1 hearlier).1
        omega
      refine ⟨f earlier, ?_, haccess earlier, hname earlier, hdescriptor earlier, ?_⟩
      · rw [if_pos rfl, Array.getElem?_modify, if_pos hi, hearlier]
        rfl
      · refine (hsignature earlier).imp_right ?_
        rintro ⟨text, htext, hallowed, hheard⟩
        exact ⟨⟨hlast, hsize⟩, text, htext, hallowed, hgrows.heard hheard⟩
    · refine ⟨earlier, ?_, rfl, rfl, rfl, .inl rfl⟩
      split
      · rename_i hkind
        rw [Array.getElem?_modify, if_neg fun hi => hchanged ⟨hkind, hi⟩, hearlier]
      · exact hearlier

namespace Extending

section Steady

variable (hsteady : namer.Steady)
include hsteady

theorem refer (type : TypeName) (access : Access) :
    Extending namer allowed (refer ⟨namer, none⟩ type access) := by
  intro s₀ s hs
  obtain ⟨t, hrun, hgrows, -, hrecord, hlast⟩ := refer_ok hsteady type access s
  rw [hrun]
  exact hs.trans (.of_record hgrows hlast hrecord)

end Steady

theorem tell (event : Event) : Extending namer allowed (tell ⟨namer, none⟩ event) :=
  modify fun s => .refl namer allowed s

theorem read {reader : Reader α} : Extending namer allowed (read reader) :=
  fun _ => Keeps.read (fun _ _ hs => hs.trans (.of_record (.of_eq rfl rfl rfl rfl) rfl rfl))
    fun _ _ _ _ => trivial

theorem within {bytes : Bytes} {m : Decode α} (hm : Extending namer allowed m) :
    Extending namer allowed (within bytes m) :=
  fun s₀ => Keeps.within
    (fun _ _ hs => hs.trans (.of_record (.of_eq rfl rfl rfl rfl) rfl rfl)) (hm s₀)

theorem expose (type : TypeName) (access : Access) :
    Extending namer allowed (expose ⟨namer, none⟩ type access) := by
  intro s₀
  refine Keeps.look fun s => ?_
  split
  · refine Keeps.bind (fun t ht => ?_) fun package => ?_
    · exact ht.trans (.of_record (grows_asked namer type t) rfl rfl)
    · split
      · exact Keeps.pure ()
      · intro t ht
        obtain ⟨u, hrun, hgrows, -, -, hrecord, hlast⟩ :=
          grows_exposePackage namer package access t
        rw [hrun]
        exact ht.trans (.of_record hgrows hlast hrecord)
  · exact Keeps.pure ()

theorem constant (hsteady : namer.Steady) (index : UInt16) :
    Extending namer allowed (referClassConstant ⟨namer, none⟩ index) := by
  intro s₀
  refine Keeps.bind (fun s hs => ?_) fun name => ?_
  · have hmarked : s.Grows namer { s with pool := (s.pool.markReferred index).2 } :=
      { Grows.refl namer s with utf8 := s.pool.utf8_markReferred index }
    exact hs.trans (.of_record hmarked rfl rfl)
  · cases name with
    | some name => exact refer hsteady _ 0 s₀
    | none => exact Keeps.pure ()

/-! ### The record -/

/-- The record may change in all but the flags of the class and the members. So the attributes of a
class may put anything else on record. -/
theorem updateRecord {f : Record → Record} (haccess : ∀ record, (f record).access = record.access)
    (hmembers : ∀ record kind, (f record).members kind = record.members kind) :
    Extending namer allowed (updateRecord f) := by
  refine fun s₀ => Keeps.updateRecord trivial fun s hs => ?_
  refine hs.trans (.of_members (.of_eq rfl rfl rfl rfl) rfl ?_ fun kind => ?_)
  · change (s.record.map f).map Record.access = _
    rw [Option.map_map]
    exact congrArg (Option.map · s.record) (funext haccess)
  · change ((s.record.map f).map (·.members kind)).getD #[] =
      (s.record.map (·.members kind)).getD #[]
    rw [Option.map_map]
    exact congrArg (fun g => (Option.map g s.record).getD #[])
      (funext fun record => hmembers record kind)

/-- A member may change in all but its header and signature, such as its constant value or its
annotations. -/
theorem updateMember {f : Member → Member} (hf : Member.Marginal f) :
    Extending namer allowed (updateMember f) := by
  refine modify fun s => ?_
  split
  · rename_i last hlast
    exact extends_updateLast hlast hf.access hf.name hf.descriptor fun member =>
      .inl (hf.signature member)
  · exact .refl namer allowed s

theorem naming (hsteady : namer.Steady) :
    Naming ⟨namer, none⟩ ⟨namer, none⟩ fun m _ => Extending namer allowed m where
  pure a _ := Keeps.pure a
  bind hm hf s₀ := Keeps.bind (hm s₀) fun a => hf a s₀
  throw _ _ := Keeps.throw trivial
  ask _ _ := Keeps.ask fun _ _ _ => trivial
  named _ := tell _
  refer := refer hsteady

/-- What was collected grows while attributes are read, and the members keep their headers.
Signatures are left out, for they say more. -/
theorem elementary (hsteady : namer.Steady) :
    Elementary ⟨namer, none⟩ ⟨namer, none⟩ fun m _ => Extending namer allowed m where
  toNaming := naming hsteady
  take _ := read
  within := within
  tell _ := tell _
  look h _ := Keeps.look fun s => h s s rfl _
  expose := expose
  constant := constant hsteady
  attempt index access _ := Keeps.succeeds ((naming hsteady).referDescriptor index access _)
  call index := by
    rw [method_eq_pure]
    exact fun _ => Keeps.pure ()
  updateRecord h := updateRecord h.access fun record kind => by
    cases kind
    · exact h.fields record
    · exact h.methods record
  updateMember := updateMember

theorem lockstep (hsteady : namer.Steady) :
    Lockstep ⟨namer, none⟩ ⟨namer, none⟩ fun m _ => Extending namer allowed m :=
  (elementary hsteady).lockstep

end Extending

/-! ### Texts -/

/-- The step ends in the state, whether or not it succeeds. -/
def EndsIn (m : Decode α) (s t : Decoder) : Prop :=
  (∃ value, m s = .ok value t) ∨ ∃ fault, m s = .error fault t

theorem EndsIn.unique {m : Decode α} {s t u : Decoder} {value : α} (h : EndsIn m s t)
    (hrun : m s = .ok value u) : t = u := by
  rcases h with ⟨_, h⟩ | ⟨_, h⟩ <;> rw [hrun] at h <;> cases h
  rfl

/-- Every step ends in some state, and what was collected has grown up to there, whether or not it
succeeds. -/
theorem Extending.ends {m : Decode α} (hm : Extending namer allowed m) (s : Decoder) :
    ∃ t, EndsIn m s t ∧ s.Extends namer allowed t := by
  have hrun := hm s s (.refl ..)
  cases hm : m s with
  | ok value t =>
    rw [hm] at hrun
    exact ⟨t, .inl ⟨value, hm⟩, hrun⟩
  | error fault t =>
    rw [hm] at hrun
    exact ⟨t, .inr ⟨fault, hm⟩, hrun.1⟩

section Steady

variable (hsteady : namer.Steady)
include hsteady

theorem mention_ok (access : Access) (name : String) (s : Decoder) :
    ∃ t, mention ⟨namer, none⟩ access name s = .ok () t ∧ s.Grows namer t ∧
      t.Referred namer access (TypeName.ofText name).referent ∧
      t.record = s.record ∧ t.last = s.last := by
  obtain ⟨t, hrun, hrest⟩ := refer_ok hsteady (.ofText name) access s
  have htell : Decode.tell ⟨namer, none⟩ (.named (.ofText name)) s = .ok () s := rfl
  exact ⟨t, EStateM.bind_eq htell hrun, hrest⟩

/-- The names in a list are referred to, one after the other. What one of them has achieved is not
lost while the others are referred to. -/
theorem mentions_ok (access : Access) (names : List String) (s : Decoder) :
    ∃ t, names.forM (mention ⟨namer, none⟩ access) s = .ok () t ∧ s.Grows namer t ∧
      (∀ name ∈ names, t.Referred namer access (TypeName.ofText name).referent) ∧
      t.record = s.record ∧ t.last = s.last := by
  induction names generalizing s with
  | nil => exact ⟨s, rfl, .refl namer s, nofun, rfl, rfl⟩
  | cons name names ih =>
    obtain ⟨t, hfirst, hgrows, hreferred, hrecord, hlast⟩ := mention_ok hsteady access name s
    obtain ⟨u, hrest, hgrows', hreferred', hrecord', hlast'⟩ := ih t
    refine ⟨u, EStateM.bind_eq hfirst hrest, hgrows.trans hgrows', ?_, hrecord'.trans hrecord,
      hlast'.trans hlast⟩
    exact List.forall_mem_cons.2 ⟨hgrows'.referred hreferred, hreferred'⟩

/-- The names in a text are referred to, even if the text turns out to be malformed: the fault comes
after the names in front of it. -/
theorem referText_ends (text : String) (access : Access) (s : Decoder) :
    ∃ t, EndsIn (referText ⟨namer, none⟩ text access) s t ∧ s.Grows namer t ∧
      t.Heard namer access text ∧ t.record = s.record ∧ t.last = s.last := by
  obtain ⟨t, hrun, hgrows, hreferred, hrecord, hlast⟩ :=
    mentions_ok hsteady access (Signature.scan text).names s
  refine ⟨t, ?_, hgrows, hreferred, hrecord, hlast⟩
  cases hfault : (Signature.scan text).fault with
  | none =>
    refine .inl ⟨(), EStateM.bind_eq hrun ?_⟩
    rw [hfault]
    rfl
  | some fault =>
    refine .inr ⟨fault, EStateM.bind_eq hrun ?_⟩
    rw [hfault]
    rfl

theorem referDescriptor_ends {index : UInt16} {text : String} {s : Decoder}
    (htext : s.pool.utf8 index = .ok text) (access : Access) :
    ∃ t, EndsIn (referDescriptor ⟨namer, none⟩ index access) s t ∧ s.Grows namer t ∧
      t.Heard namer access text ∧ t.record = s.record ∧ t.last = s.last := by
  obtain ⟨t, hends, hrest⟩ := referText_ends hsteady text access s
  have hutf8 : utf8 index s = .ok text s := utf8_of_ok htext
  refine ⟨t, ?_, hrest⟩
  rcases hends with ⟨_, h⟩ | ⟨fault, h⟩
  · exact .inl ⟨_, EStateM.bind_eq hutf8 h⟩
  · exact .inr ⟨fault, EStateM.bind_eq hutf8 h⟩

/-! ### Signatures -/

omit hsteady in
/-- A signature at an index without a text is left out. -/
theorem signatureAt_of_error {c : Context} {index : UInt16} {fault : Fault} {s : Decoder}
    (h : s.pool.utf8 index = .error fault) (site : Site) (access : Access) :
    signatureAt c site access index s = .ok () s := by
  have hsucceeds : succeeds (referDescriptor c index access) s = .ok false s := by
    have hutf8 : utf8 index s = .error fault s := by rw [utf8, ask, h]
    have hrefer : referDescriptor c index access s = .error fault s := EStateM.bind_of_error hutf8
    rw [succeeds, hrefer]
  exact EStateM.bind_eq hsucceeds rfl

omit hsteady in
/-- A signature is stored, after the names in it were referred to. Where there is no current member
it is stored nowhere. -/
theorem sign_ends {text : String} {s : Decoder} (hallowed : allowed text)
    (hheard : s.Heard namer 0 text) (site : Site) :
    ∃ t, EndsIn (if site = .type then
        updateRecord fun record => { record with signature := some text }
      else updateMember fun member => { member with signature := some text }) s t ∧
      s.Extends namer allowed t := by
  split
  · have hkeeps : Extending namer allowed
        (updateRecord fun record => { record with signature := some text }) :=
      .updateRecord (fun _ => rfl) fun _ kind => by cases kind <;> rfl
    exact hkeeps.ends s
  · refine ⟨_, .inl ⟨(), rfl⟩, ?_⟩
    dsimp only
    split
    · rename_i last hlast
      exact extends_updateLast hlast (fun _ => rfl) (fun _ => rfl) (fun _ => rfl) fun _ =>
        .inr ⟨text, rfl, hallowed, hheard⟩
    · exact .refl namer allowed s

/-- The names in a signature are referred to. If it is well formed, it becomes that of the class or
of the current member; if it is not, its names remain referred to. -/
theorem signatureAt_ends {index : UInt16} {text : String} {s : Decoder}
    (htext : s.pool.utf8 index = .ok text) (hallowed : allowed text) (site : Site)
    (access : Access) :
    ∃ t, EndsIn (signatureAt ⟨namer, none⟩ site access index) s t ∧
      s.Extends namer allowed t ∧ t.Heard namer access text := by
  obtain ⟨t, hends, hgrows, hheard, hrecord, hlast⟩ := referDescriptor_ends hsteady htext access
  have hextends : s.Extends namer allowed t := .of_record hgrows hlast hrecord
  rcases hends with ⟨_, h⟩ | ⟨fault, h⟩
  · obtain ⟨u, hsigned, hextends'⟩ := sign_ends hallowed hheard.hidden site
    refine ⟨u, ?_, hextends.trans hextends', hextends'.heard hheard⟩
    have hsucceeds : succeeds (referDescriptor ⟨namer, none⟩ index access) s = .ok true t := by
      rw [succeeds, h]
    have hutf8 : utf8 index t = .ok text t := utf8_of_ok ((hgrows.utf8 index text).2 htext)
    rcases hsigned with ⟨_, hsigned⟩ | ⟨fault, hsigned⟩
    · refine .inl ⟨(), EStateM.bind_eq hsucceeds ?_⟩
      rw [if_pos rfl]
      exact EStateM.bind_eq hutf8 hsigned
    · refine .inr ⟨fault, EStateM.bind_eq hsucceeds ?_⟩
      rw [if_pos rfl]
      exact EStateM.bind_eq hutf8 hsigned
  · refine ⟨t, .inl ⟨(), ?_⟩, hextends, hheard⟩
    have hsucceeds : succeeds (referDescriptor ⟨namer, none⟩ index access) s = .ok false t := by
      rw [succeeds, h]
    exact EStateM.bind_eq hsucceeds rfl

/-- The attribute of a signature, where any text is allowed that stands in the pool. -/
theorem signatureAttribute_extending (hallowed : ∀ text, allowed text) (site : Site)
    (access : Access) :
    Extending namer allowed (signatureAttribute ⟨namer, none⟩ site access) := by
  have hsignature (index : UInt16) :
      Extending namer allowed (signatureAt ⟨namer, none⟩ site access index) := by
    intro s₀ s hs
    cases htext : s.pool.utf8 index with
    | error fault =>
      rw [signatureAt_of_error htext]
      exact hs
    | ok text =>
      obtain ⟨t, hends, hextends, -⟩ := signatureAt_ends hsteady htext (hallowed text) site access
      rcases hends with ⟨_, h⟩ | ⟨fault, h⟩
      · rw [h]
        exact hs.trans hextends
      · rw [h]
        exact ⟨hs.trans hextends, trivial⟩
  exact fun s₀ => Keeps.bind (Extending.read s₀) fun index => hsignature index s₀

/-- What is in a method body may give the method any signature: attributes inside of a body are read
as attributes of the method. -/
theorem code_extending (hallowed : ∀ text, allowed text) :
    Extending namer allowed (code ⟨namer, none⟩) :=
  (Extending.lockstep hsteady).code (signatureAttribute_extending hsteady hallowed) fun code _ =>
    Keeps.look fun s => (Extending.lockstep hsteady).walk s.targets code _

end Steady

end Decode

end ClassFile
