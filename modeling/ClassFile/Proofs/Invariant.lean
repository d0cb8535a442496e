import ClassFile.Decoder.Class
import ClassFile.Proofs.Memberwise

/-!
# Invariants of decodings

A step *keeps* an invariant if it leads from states with the invariant to states with it,
whether or not it succeeds (`ClassFile.Decode.Keeps`). What a failing step leaves behind
matters, for a signature may be tried out and its fault passed over. Which faults a step can
have from such states is followed along with it.

This file has what does not depend on the invariant: the rules of composition, and that a
reading of bytes keeps what does not speak of the input. It also has what single steps do to the
record and its members.
-/

/-- A function of the elements that a modification leaves as it is can be read off before or after
it. It is for what a member keeps while its attributes are read. -/
theorem Array.map_modify_of_eq {α β : Type} {f : α → α} {g : α → β} (h : ∀ x, g (f x) = g x)
    (xs : Array α) (i : Nat) : (xs.modify i f).map g = xs.map g := by
  refine Array.ext_getElem? fun j => ?_
  rw [Array.getElem?_map, Array.getElem?_map, Array.getElem?_modify]
  split
  · rw [Option.map_map]
    exact congrArg (Option.map · xs[j]?) (funext h)
  · rfl

namespace ClassFile

namespace Decode

variable {I : Decoder → Prop} {E : Fault → Prop} {α β : Type}

/-- The step leads from states with the invariant `I` to states with it, and its faults
satisfy `E`. -/
def Keeps (I : Decoder → Prop) (E : Fault → Prop) (m : Decode α) : Prop :=
  ∀ s, I s → match m s with
    | .ok _ t => I t
    | .error fault t => I t ∧ E fault

namespace Keeps

/-! ### Composition -/

theorem pure (a : α) : Keeps I E (Pure.pure a) := fun _ h => h

/-- A fault is one of the faults that the invariant allows, and the state in which it occurs has the
invariant already. -/
theorem throw {fault : Fault} (h : E fault) :
    Keeps I E (MonadExcept.throw fault : Decode α) := fun _ hs => ⟨hs, h⟩

/-- The second step is taken from the state that the first one left, with the value that it gave.
This is the most that is known of two steps in a row. -/
theorem bind_at {m : Decode α} {f : α → Decode β} (hm : Keeps I E m)
    (hf : ∀ s a t, I s → m s = .ok a t → I t → match f a t with
      | .ok _ u => I u
      | .error fault u => I u ∧ E fault) : Keeps I E (m >>= f) := by
  intro s hs
  change match EStateM.bind m f s with
    | .ok _ t => I t
    | .error fault t => I t ∧ E fault
  have hfirst := hm s hs
  rw [EStateM.bind]
  cases hrun : m s with
  | ok a t =>
    rw [hrun] at hfirst
    exact hf s a t hs hrun hfirst
  | error fault t =>
    rw [hrun] at hfirst
    exact hfirst

/-- The second step may rely on what the first one came to: with which value it ended, and from
which state. Where only the invariant counts this is not needed. -/
theorem bind_of_ok {m : Decode α} {f : α → Decode β} (hm : Keeps I E m)
    (hf : ∀ s a t, I s → m s = .ok a t → Keeps I E (f a)) : Keeps I E (m >>= f) :=
  hm.bind_at fun s a t hs hrun ht => hf s a t hs hrun t ht

theorem bind {m : Decode α} {f : α → Decode β} (hm : Keeps I E m)
    (hf : ∀ a, Keeps I E (f a)) : Keeps I E (m >>= f) :=
  hm.bind_of_ok fun _ a _ _ _ => hf a

/-- Two invariants may be kept at once, with the faults of either. One is often proved first, and
then the other one with its help. -/
theorem and {J : Decoder → Prop} {F : Fault → Prop} {m : Decode α} (h : Keeps I E m)
    (h' : Keeps J F m) : Keeps (fun s => I s ∧ J s) E m := by
  intro s hs
  have hleft := h s hs.1
  have hright := h' s hs.2
  cases hrun : m s with
  | ok a t =>
    rw [hrun] at hleft hright
    exact ⟨hleft, hright⟩
  | error fault t =>
    rw [hrun] at hleft hright
    exact ⟨⟨hleft.1, hright.1⟩, hleft.2⟩

theorem modify {f : Decoder → Decoder} (h : ∀ s, I s → I (f s)) : Keeps I E (modify f) :=
  fun s hs => h s hs

theorem look {k : Decoder → Decode α} (h : ∀ s, Keeps I E (k s)) : Keeps I E (get >>= k) :=
  fun s hs => h s s hs

/-- A question to the pool does not change the state, so only its faults are to be looked at. -/
theorem ask {question : Pool → Except Fault α}
    (h : ∀ pool fault, question pool = .error fault → E fault) : Keeps I E (ask question) := by
  intro s hs
  rw [Decode.ask]
  cases hanswer : question s.pool with
  | ok value => exact hs
  | error fault => exact ⟨hs, h _ _ hanswer⟩

/-- A step may be tried out, and then its faults do not matter. But what it has changed before it
failed stays, so it must keep the invariant there as well. -/
theorem succeeds {F : Fault → Prop} {m : Decode Unit} (hm : Keeps I F m) :
    Keeps I E (succeeds m) := by
  intro s hs
  have h := hm s hs
  rw [Decode.succeeds]
  cases hrun : m s with
  | ok _ t =>
    rw [hrun] at h
    exact h
  | error fault t =>
    rw [hrun] at h
    exact h.1

/-- What is done at the end of a step is done whether or not the step succeeds. -/
theorem ending {m : Decode α} {finish : Decoder → Decoder} (hm : Keeps I E m)
    (h : ∀ s, I s → I (finish s)) : Keeps I E (ending m finish) := by
  intro s hs
  have hbody := hm s hs
  rw [Decode.ending]
  cases hrun : m s with
  | ok a t =>
    rw [hrun] at hbody
    exact h t hbody
  | error fault t =>
    rw [hrun] at hbody
    exact ⟨h t hbody.1, hbody.2⟩

/-! ### Readings -/

theorem read {reader : Reader α} (hinput : ∀ s input, I s → I { s with input := input })
    (h : ∀ input fault rest, reader input = .error fault rest → E fault) :
    Keeps I E (read reader) := by
  intro s hs
  rw [Decode.read]
  cases hread : reader s.input with
  | ok value input => exact hinput s input hs
  | error fault input => exact ⟨hinput s input hs, h _ _ _ hread⟩

/-- The body of an attribute has an input of its own, and the input of the file is put back after
it. So the invariant must not speak of the input. -/
theorem within {bytes : Bytes} {m : Decode α}
    (hinput : ∀ s input, I s → I { s with input := input }) (hm : Keeps I E m) :
    Keeps I E (within bytes m) := by
  intro s hs
  have h := hm _ (hinput s (.ofBytes bytes) hs)
  rw [Decode.within]
  cases hrun : m { s with input := .ofBytes bytes } with
  | ok a t =>
    rw [hrun] at h
    exact hinput t s.input h
  | error fault t =>
    rw [hrun] at h
    exact ⟨hinput t s.input h.1, h.2⟩

end Keeps

/-! ### The record -/

end Decode

/-- The fields or the methods of a class. -/
def Record.members (record : Record) : LastMember → Array Member
  | .field => record.fields
  | .method => record.methods

/-- Of the fields and of the methods only the list of the current member changes, and in it only the
last one. -/
theorem Record.members_updateLast (record : Record) (last kind : LastMember)
    (f : Member → Member) : (record.updateLast last f).members kind =
      if last = kind then (record.members kind).modify ((record.members kind).size - 1) f
      else record.members kind := by
  cases last <;> cases kind <;> rfl

/-- The fields or the methods that are on record. -/
def Decoder.members (kind : LastMember) (s : Decoder) : Array Member :=
  (s.record.map (·.members kind)).getD #[]

/-- The same of the members on record. If there is no record there are no members, before and
after. -/
theorem Decoder.members_updateLast (s : Decoder) (last kind : LastMember) (f : Member → Member) :
    Decoder.members kind { s with record := s.record.map (·.updateLast last f) } =
      if last = kind then (s.members kind).modify ((s.members kind).size - 1) f
      else s.members kind := by
  change ((s.record.map (·.updateLast last f)).map (·.members kind)).getD #[] = _
  rw [members]
  cases s.record with
  | none => split <;> rfl
  | some record => exact record.members_updateLast last kind f

/-- What the collecting of references does not touch. -/
def Decoder.ground (s : Decoder) : Input × Pool × Option Record := (s.input, s.pool, s.record)

theorem Decoder.ground_told (context : Context) (event : Event) (s : Decoder) :
    (s.told context event).ground = s.ground := by
  rw [told]
  cases context.listener <;> rfl

namespace Decode

theorem record_of_some {s : Decoder} {found : Record} (h : s.record = some found) :
    record s = .ok found s := by
  obtain ⟨input, pool, session, references, imports, api, _, last, walking, targets, notes⟩ := s
  cases h
  rfl

theorem record_of_none {s : Decoder} (h : s.record = none) :
    record s = .error .noHeader s := by
  obtain ⟨input, pool, session, references, imports, api, _, last, walking, targets, notes⟩ := s
  cases h
  rfl

theorem updateRecord_of_some {s : Decoder} {found : Record} (h : s.record = some found)
    (f : Record → Record) : updateRecord f s = .ok () { s with record := some (f found) } := by
  obtain ⟨input, pool, session, references, imports, api, _, last, walking, targets, notes⟩ := s
  cases h
  rfl

/-- Where there is no record, what is to be noted in it is a fault of the decoder. It does not
occur, for a record is there before the first attribute. -/
theorem updateRecord_of_none {s : Decoder} (h : s.record = none) (f : Record → Record) :
    updateRecord f s = .error .noHeader s := by
  obtain ⟨input, pool, session, references, imports, api, _, last, walking, targets, notes⟩ := s
  cases h
  rfl

theorem prepareWalks_of_none {s : Decoder} (h : s.record = none) (orphan : Bool) :
    prepareWalks orphan s = .error .noHeader s := by
  obtain ⟨input, pool, session, references, imports, api, _, last, walking, targets, notes⟩ := s
  cases h
  rfl

/-- Whether bodies are walked through is all that is decided before the methods, with what calls are
looked for in them. A class without a record is a fault. -/
theorem prepareWalks_ok {orphan : Bool} {s t : Decoder}
    (hrun : prepareWalks orphan s = .ok () t) :
    ∃ walking targets, t = { s with walking := walking, targets := targets } := by
  rcases Option.eq_none_or_eq_some s.record with hrecord | ⟨found, hrecord⟩
  · rw [prepareWalks_of_none hrecord] at hrun
    cases hrun
  · cases (EStateM.bind_of_ok (record_of_some hrecord)).symm.trans hrun
    dsimp only
    split
    · exact ⟨_, _, rfl⟩
    · exact ⟨s.walking, s.targets, rfl⟩

/-- In the end the record gets what was collected meanwhile: the references, the imports, and the
exposed packages. -/
theorem finish_of_some {s : Decoder} {found : Record} (h : s.record = some found) :
    finish s =
      .ok { found with references := s.references, imports := s.imports, api := s.api } s := by
  obtain ⟨input, pool, session, references, imports, api, _, last, walking, targets, notes⟩ := s
  cases h
  rfl

theorem finish_of_none {s : Decoder} (h : s.record = none) : finish s = .error .noRecord s := by
  obtain ⟨input, pool, session, references, imports, api, _, last, walking, targets, notes⟩ := s
  cases h
  rfl

theorem get_bind (k : Decoder → Decode α) (s : Decoder) : (get >>= k) s = k s s := rfl

/-- A record that is changed is there, or the step is a fault. The invariant must survive the change
of the record. -/
theorem Keeps.updateRecord {f : Record → Record} (hnone : E .noHeader)
    (hf : ∀ s, I s → I { s with record := s.record.map f }) : Keeps I E (updateRecord f) := by
  intro s hs
  rcases Option.eq_none_or_eq_some s.record with hrecord | ⟨found, hrecord⟩
  · rw [updateRecord_of_none hrecord]
    exact ⟨hs, hnone⟩
  · have hnext := hf s hs
    rw [hrecord] at hnext
    rw [updateRecord_of_some hrecord]
    exact hnext

/-! ### References -/

section References

variable {I : Decoder → Prop} {E : Fault → Prop}

namespace Keeps

variable {c : Context} (hI : ∀ {s t : Decoder}, t.ground = s.ground → I s → I t)

include hI

theorem tell (event : Event) : Keeps I E (tell c event) :=
  modify fun s hs => hI (s.ground_told c event) hs

theorem packageOf (type : TypeName) : Keeps I E (packageOf c type) :=
  fun s hs => @hI s _ rfl hs

theorem exposePackage (package : Package) (access : Access) :
    Keeps I E (exposePackage package access) := by
  refine modify fun s hs => hI ?_ hs
  split <;> rfl

/-- A reference asks for a package, puts down the type and its package, and tells the listener. All
of it leaves the ground as it is. -/
theorem refer (type : TypeName) (access : Access) : Keeps I E (refer c type access) := by
  rw [Decode.refer]
  split
  · exact .pure ()
  refine .bind (packageOf hI _) fun package => ?_
  split
  · exact .pure ()
  refine .bind (modify fun s hs => @hI s _ rfl hs) fun _ =>
    .bind (exposePackage hI package access) fun _ => ?_
  exact .bind (modify fun s hs => @hI s _ rfl hs) fun _ => tell hI _

/-- An exposed type is asked for its package, which is put down among the exposed ones. This leaves
the ground as it is, too. -/
theorem expose (type : TypeName) (access : Access) : Keeps I E (expose c type access) := by
  refine .look fun s => ?_
  split
  · refine .bind (packageOf hI type) fun package => ?_
    split
    · exact .pure ()
    · exact exposePackage hI package access
  · exact .pure ()

theorem mention (access : Access) (name : String) : Keeps I E (mention c access name) :=
  .bind (tell hI _) fun _ => refer hI _ access

end Keeps

end References

/-! ### What a step comes to -/

/-- If the step succeeds, then with a value and in a state of which `Q` holds. -/
def Yields (Q : α → Decoder → Prop) (m : Decode α) : Prop := ∀ s a t, m s = .ok a t → Q a t

namespace Yields

variable {Q : β → Decoder → Prop} {m : Decode α} {f : α → Decode β}

/-- It is enough to look at the last of a sequence of steps, for a step that fails yields
nothing. -/
theorem after (h : ∀ a, Yields Q (f a)) : Yields Q (m >>= f) := by
  intro s b u hrun
  obtain ⟨a, t, -, hlast⟩ := EStateM.ok_of_bind hrun
  exact h a t b u hlast

theorem pure {b : β} (h : ∀ s, Q b s) : Yields Q (Pure.pure b) := by
  intro s c t hrun
  cases hrun
  exact h s

end Yields

/-- If the step succeeds in a state of which `I` holds, then with a value and in a state of which
`J` holds. -/
def Leads (I : Decoder → Prop) (J : α → Decoder → Prop) (m : Decode α) : Prop :=
  ∀ s a t, I s → m s = .ok a t → J a t

/-- An invariant that is kept is an invariant to which a step leads when it succeeds. What a failing
step leaves behind does not count any more. -/
theorem Keeps.leads {m : Decode α} (h : Keeps I E m) : Leads I (fun _ => I) m := by
  intro s a t hs hrun
  have ht := h s hs
  rw [hrun] at ht
  exact ht

namespace Leads

variable {J : α → Decoder → Prop} {K : β → Decoder → Prop}

/-- What the first step leads to is where the second one begins. The condition may depend on the
value that was passed on. -/
theorem bind {m : Decode α} {f : α → Decode β} (hm : Leads I J m)
    (hf : ∀ a, Leads (J a) K (f a)) : Leads I K (m >>= f) := by
  intro s b u hs hrun
  obtain ⟨a, t, hfirst, hsecond⟩ := EStateM.ok_of_bind hrun
  exact hf a t b u (hm s a t hs hfirst) hsecond

theorem pure {a : α} (h : ∀ s, I s → J a s) : Leads I J (Pure.pure a) := by
  intro s b t hs hrun
  cases hrun
  exact h s hs

theorem modify {J : Decoder → Prop} {f : Decoder → Decoder} (h : ∀ s, I s → J (f s)) :
    Leads I (fun _ => J) (modify f) := by
  intro s _ t hs hrun
  cases hrun
  exact h s hs

theorem look {k : Decoder → Decode α} (h : ∀ s, I s → Leads I J (k s)) : Leads I J (get >>= k) :=
  fun s a t hs hrun => h s hs s a t hs hrun

theorem get : Leads I (fun _ => I) get := by
  intro s _ t hs hrun
  cases hrun
  exact hs

theorem imp {J' : α → Decoder → Prop} {m : Decode α} (h : Leads I J m)
    (himp : ∀ a s, J a s → J' a s) : Leads I J' m :=
  fun s a t hs hrun => himp a t (h s a t hs hrun)

theorem record : Leads I (fun _ => I) record := by
  refine .look fun s _ => ?_
  cases s.record with
  | some found => exact .pure fun _ hs => hs
  | none =>
    intro _ _ _ _ hrun
    cases hrun

theorem repeated {m : Decode Unit} (hm : Leads I (fun _ => I) m) (n : Nat) :
    Leads I (fun _ => I) (repeated n m) := by
  induction n with
  | zero => exact .pure fun _ hs => hs
  | succ n ih => exact hm.bind fun _ => ih

/-- A loop over what was read leads from an invariant to the same invariant if each of its rounds
does. -/
theorem forM {ρ : Type} {f : ρ → Decode Unit} {raws : List ρ}
    (hf : ∀ raw ∈ raws, Leads I (fun _ => I) (f raw)) : Leads I (fun _ => I) (raws.forM f) := by
  induction raws with
  | nil => exact .pure fun _ hs => hs
  | cons raw raws ih =>
    refine (hf raw List.mem_cons_self).bind fun _ => ih fun other hother => ?_
    exact hf other (List.mem_cons_of_mem raw hother)

/-- What one element brings about, and what stays from then on, is the case in the end. It must not
have been prevented by the elements in front. -/
theorem forM_of_mem {J : Decoder → Prop} {ρ : Type} {f : ρ → Decode Unit} {raws : List ρ} {raw : ρ}
    (hraw : raw ∈ raws) (hbefore : ∀ other ∈ raws, Leads I (fun _ => I) (f other))
    (hthere : Leads I (fun _ => J) (f raw))
    (hbehind : ∀ other ∈ raws, Leads J (fun _ => J) (f other)) :
    Leads I (fun _ => J) (raws.forM f) := by
  obtain ⟨front, back, rfl⟩ := List.append_of_mem hraw
  rw [List.forM_eq_forM, List.forM_append, List.forM_cons]
  refine (Leads.forM fun other hother => hbefore other ?_).bind fun _ => hthere.bind fun _ => ?_
  · exact List.mem_append_left _ hother
  · refine Leads.forM fun other hother => hbehind other ?_
    exact List.mem_append_right _ (List.mem_cons_of_mem raw hother)

end Leads

/-! ### What a step that succeeded did -/

/-- What succeeded inside the body of an attribute succeeded there on its own input, and the input
of the file is as before. -/
theorem ok_of_within {α : Type} {bytes : Bytes} {m : Decode α} {s t : Decoder} {value : α}
    (h : within bytes m s = .ok value t) :
    ∃ u, m { s with input := .ofBytes bytes } = .ok value u ∧ t = { u with input := s.input } := by
  rw [within] at h
  cases hrun : m { s with input := .ofBytes bytes } with
  | ok found u =>
    rw [hrun] at h
    cases h
    exact ⟨u, rfl, rfl⟩
  | error fault u =>
    rw [hrun] at h
    cases h

theorem ok_of_updateRecord {f : Record → Record} {s t : Decoder}
    (h : updateRecord f s = .ok () t) : t = { s with record := s.record.map f } := by
  rcases Option.eq_none_or_eq_some s.record with hrecord | ⟨found, hrecord⟩
  · rw [updateRecord_of_none hrecord] at h
    cases h
  · rw [updateRecord_of_some hrecord] at h
    cases h
    rw [hrecord]
    rfl

/-- A question that was answered leaves the state as it is, and the answer is that of the pool. -/
theorem ok_of_ask {question : Pool → Except Fault α} {value : α} {s t : Decoder}
    (h : ask question s = .ok value t) : question s.pool = .ok value ∧ t = s := by
  rw [ask] at h
  cases hanswer : question s.pool with
  | ok found =>
    rw [hanswer] at h
    cases h
    exact ⟨rfl, rfl⟩
  | error fault =>
    rw [hanswer] at h
    cases h

theorem ok_of_record {s t : Decoder} {found : Record} (h : record s = .ok found t) :
    t = s ∧ s.record = some found := by
  cases hs : s.record with
  | none =>
    rw [record_of_none hs] at h
    cases h
  | some other =>
    rw [record_of_some hs] at h
    cases h
    exact ⟨rfl, rfl⟩

/-- The record in the end is the one that was built up, with what was collected. -/
theorem ok_of_finish {s t : Decoder} {record : Record} (h : finish s = .ok record t) :
    t = s ∧ ∃ found, s.record = some found ∧
      record = { found with references := s.references, imports := s.imports, api := s.api } := by
  rcases Option.eq_none_or_eq_some s.record with hrecord | ⟨found, hrecord⟩
  · rw [finish_of_none hrecord] at h
    cases h
  · rw [finish_of_some hrecord] at h
    cases h
    exact ⟨rfl, found, hrecord, rfl⟩

theorem utf8_of_ok {index : UInt16} {text : String} {s : Decoder}
    (h : s.pool.utf8 index = .ok text) : utf8 index s = .ok text s := by
  rw [utf8, ask, h]

theorem ok_of_utf8 {index : UInt16} {text : String} {s t : Decoder}
    (h : utf8 index s = .ok text t) : s.pool.utf8 index = .ok text ∧ t = s :=
  ok_of_ask h

/-- A class that is read at an index is named there by a constant of the pool, which spells its
name. Nothing changes by that. -/
theorem ok_of_classAt {index : UInt16} {type : TypeName} {s t : Decoder}
    (h : classAt index s = .ok type t) :
    ∃ name, s.pool.className index = .ok name ∧ type = .ofText name ∧ t = s := by
  obtain ⟨name, _, hname, hlast⟩ := EStateM.ok_of_bind h
  obtain ⟨hname, rfl⟩ := ok_of_ask hname
  cases hlast
  exact ⟨name, hname, rfl, rfl⟩

end Decode

end ClassFile
