import ClassFile.Pool.Basic

/-!
# Questions to a pool

A decoding asks its pool for texts, classes, names and methods. Two things hold of each of
these questions (`ClassFile.Pool.Question`). Its faults speak of the file, and never of the
decoding. And its answer does not depend on which class constants were marked as referred to:
pools that are alike but for the marks (`ClassFile.Pool.Like`) give the same answers.
-/

/-- A result of which something is left when its faults are forgotten is a value. -/
theorem Except.eq_ok_of_toOption {ε α : Type} {x : Except ε α} {a : α} (h : x.toOption = some a) :
    x = .ok a := by
  cases x with
  | ok b => exact congrArg Except.ok (Option.some.inj h)
  | error fault => cases h

namespace ClassFile

/-- Faults that speak of the decoding itself, and not of the file. -/
def Fault.isInternal : Fault → Bool
  | .noHeader => true
  | .noRecord => true
  | .stopped => true
  | _ => false

/-- An entry without its mark. -/
def Entry.unmarked : Entry → Entry
  | .classInfo name _ => .classInfo name false
  | found => found

namespace Pool

/-! ### Marks -/

/-- The pools are the same but for the marks. -/
def Like (p q : Pool) : Prop := p.entries.map Entry.unmarked = q.entries.map Entry.unmarked

namespace Like

theorem refl (p : Pool) : p.Like p := rfl

theorem symm {p q : Pool} (h : p.Like q) : q.Like p := Eq.symm h

theorem trans {p q r : Pool} (h : p.Like q) (h' : q.Like r) : p.Like r := Eq.trans h h'

/-- Pools that differ in marks only have as many slots. -/
theorem size {p q : Pool} (h : p.Like q) : p.size = q.size := by
  have hsize := congrArg Array.size h
  rwa [Array.size_map, Array.size_map] at hsize

/-- In each slot there is nothing in either pool, or the same but for the mark. -/
theorem slot {p q : Pool} (h : p.Like q) (i : Nat) :
    p.entries[i]? = none ∧ q.entries[i]? = none ∨
      ∃ found other, p.entries[i]? = some found ∧ q.entries[i]? = some other ∧
        found.unmarked = other.unmarked := by
  have hsame : p.entries[i]?.map Entry.unmarked = q.entries[i]?.map Entry.unmarked := by
    rw [← Array.getElem?_map, ← Array.getElem?_map, h]
  cases hp : p.entries[i]? with
  | none =>
    rw [hp] at hsame
    exact .inl ⟨rfl, Option.map_eq_none_iff.1 hsame.symm⟩
  | some found =>
    rw [hp] at hsame
    obtain ⟨other, hq, hunmarked⟩ := Option.map_eq_some_iff.1 hsame.symm
    exact .inr ⟨found, other, rfl, hq, hunmarked.symm⟩

/-- Where one pool has an entry, so has the other, and it is the same but for the mark. -/
theorem exists_entry {p q : Pool} (h : p.Like q) {i : Nat} {found : Entry}
    (hentry : p.entries[i]? = some found) :
    ∃ other, q.entries[i]? = some other ∧ found.unmarked = other.unmarked := by
  rcases h.slot i with ⟨hnone, -⟩ | ⟨found', other, hfound, hother, hsame⟩
  · cases hnone.symm.trans hentry
  · cases hfound.symm.trans hentry
    exact ⟨other, hother, hsame⟩

/-- A class constant in one pool is one of the same name in the other, with whatever mark. -/
theorem classInfo {p q : Pool} (h : p.Like q) {i : Nat} {name : UInt16} {mark : Bool}
    (hentry : p.entries[i]? = some (.classInfo name mark)) :
    ∃ mark, q.entries[i]? = some (.classInfo name mark) := by
  obtain ⟨other, hother, hsame⟩ := h.exists_entry hentry
  cases other <;> cases hsame
  exact ⟨_, hother⟩

/-- Other entries have no marks, so they are the same in both. -/
theorem ref {p q : Pool} (h : p.Like q) {i : Nat} {kind : RefKind} {owner member : UInt16}
    (hentry : p.entries[i]? = some (.ref kind owner member)) :
    q.entries[i]? = some (.ref kind owner member) := by
  obtain ⟨other, hother, hsame⟩ := h.exists_entry hentry
  cases other <;> cases hsame
  exact hother

/-- For a name with its descriptor this is so, too. -/
theorem nameAndType {p q : Pool} (h : p.Like q) {i : Nat} {name descriptor : UInt16}
    (hentry : p.entries[i]? = some (.nameAndType name descriptor)) :
    q.entries[i]? = some (.nameAndType name descriptor) := by
  obtain ⟨other, hother, hsame⟩ := h.exists_entry hentry
  cases other <;> cases hsame
  exact hother

end Like

/-- To mark a constant leaves a pool that differs in marks only. So all that is asked of a pool
while a class is decoded has the answer that it had when the pool was read. -/
theorem like_markReferred (pool : Pool) (index : UInt16) :
    (pool.markReferred index).2.Like pool := by
  rw [markReferred]
  split
  · rename_i name hname
    refine Array.ext_getElem? fun i => ?_
    rw [Array.getElem?_map, Array.getElem?_map, Array.getElem?_setIfInBounds]
    split
    · rename_i hi
      have hlt : index.toNat < pool.entries.size := (Array.getElem?_eq_some_iff.1 hname).1
      rw [← hi, hname, if_pos hlt]
      rfl
    · rfl
  · rfl

/-! ### Questions -/

variable {α β : Type}

/-- A question to a pool: its faults are those of the file, and the marks do not matter. -/
structure Question (question : Pool → Except Fault α) : Prop where
  outward : ∀ pool fault, question pool = .error fault → fault.isInternal = false
  like : ∀ p q, p.Like q → (question p).toOption = (question q).toOption

namespace Question

/-- A question that one pool answers is answered by every pool like it, and the same. -/
theorem ok_of_like {question : Pool → Except Fault α} (h : Question question) {p q : Pool}
    (hlike : p.Like q) {value : α} (hp : question p = .ok value) : question q = .ok value := by
  have hsame := h.like p q hlike
  rw [hp] at hsame
  cases hq : question q with
  | ok found =>
    rw [hq] at hsame
    cases hsame
    rfl
  | error fault =>
    rw [hq] at hsame
    cases hsame

theorem pure (a : α) : Question fun _ => .ok a := ⟨nofun, fun _ _ _ => rfl⟩

theorem throw {fault : Fault} (h : fault.isInternal = false) :
    Question fun _ => (.error fault : Except Fault α) := by
  refine ⟨fun _ other hother => ?_, fun _ _ _ => rfl⟩
  cases hother
  exact h

/-- Questions may be asked one after the other, where the second one depends on the answer to the
first. -/
theorem bind {question : Pool → Except Fault α} {f : α → Pool → Except Fault β}
    (h : Question question) (hf : ∀ a, Question (f a)) :
    Question fun pool => question pool >>= fun a => f a pool where
  outward pool fault hfault := by
    cases hquestion : question pool with
    | error other =>
      rw [hquestion] at hfault
      cases hfault
      exact h.outward pool _ hquestion
    | ok a =>
      rw [hquestion] at hfault
      exact (hf a).outward pool fault hfault
  like p q hpq := by
    have hsame := h.like p q hpq
    cases hp : question p with
    | error fault =>
      cases hq : question q with
      | error other => rfl
      | ok a =>
        rw [hp, hq] at hsame
        cases hsame
    | ok a =>
      cases hq : question q with
      | error other =>
        rw [hp, hq] at hsame
        cases hsame
      | ok b =>
        rw [hp, hq] at hsame
        cases hsame
        exact (hf a).like p q hpq

/-- That there is no entry at an index is a fault of the file. -/
theorem outward_entry {pool : Pool} {index : UInt16} {fault : Fault}
    (h : pool.entry index = .error fault) : fault.isInternal = false := by
  rw [Pool.entry] at h
  split at h
  · exact nomatch h
  · cases h
    rfl

/-- What is asked about an entry must not depend on its mark. -/
theorem entry {f : Entry → Pool → Except Fault α} (index : UInt16)
    (hf : ∀ found, Question (f found))
    (hmark : ∀ name mark pool, (f (.classInfo name mark) pool).toOption =
      (f (.classInfo name false) pool).toOption) :
    Question fun pool => pool.entry index >>= fun found => f found pool where
  outward pool fault hfault := by
    cases hentry : pool.entry index with
    | error other =>
      rw [hentry] at hfault
      cases hfault
      exact outward_entry hentry
    | ok found =>
      rw [hentry] at hfault
      exact (hf found).outward pool fault hfault
  like p q hpq := by
    have hunmarked (found : Entry) (pool : Pool) :
        (f found.unmarked pool).toOption = (f found pool).toOption := by
      cases found with
      | classInfo name mark => exact (hmark name mark pool).symm
      | _ => rfl
    rw [Pool.entry, Pool.entry]
    rcases hpq.slot index.toNat with ⟨hp, hq⟩ | ⟨found, other, hp, hq, hsame⟩
    · rw [hp, hq]
      rfl
    · rw [hp, hq]
      change (f found p).toOption = (f other q).toOption
      rw [← hunmarked found, hsame, hunmarked other]
      exact (hf other).like p q hpq

/-! ### The questions that are asked -/

theorem utf8 (index : UInt16) : Question (·.utf8 index) := by
  refine entry index (fun found => ?_) fun _ _ _ => rfl
  cases found with
  | utf8 text => exact pure text
  | _ => exact throw rfl

/-- The name of a class is a question: it is the text behind a constant, whose mark does not
matter. -/
theorem className (index : UInt16) : Question (·.className index) := by
  refine entry index (fun found => ?_) fun _ _ _ => rfl
  cases found with
  | classInfo name _ => exact utf8 name
  | _ => exact throw rfl

theorem nameAndType (index : UInt16) : Question (·.nameAndType index) := by
  refine entry index (fun found => ?_) fun _ _ _ => rfl
  cases found with
  | nameAndType name descriptor =>
    exact (utf8 name).bind fun _ => (utf8 descriptor).bind fun _ => pure _
  | _ => exact throw rfl

/-- A method is a question, in which four indices are followed. -/
theorem methodRef (index : UInt16) : Question (·.methodRef index) := by
  have hnames (owner member : UInt16) : Question fun pool =>
      pool.className owner >>= fun owner => pool.nameAndType member >>= fun names =>
        .ok (⟨owner, names.1, names.2⟩ : MethodName) :=
    (className owner).bind fun _ => (nameAndType member).bind fun _ => pure _
  refine entry index (fun found => ?_) fun _ _ _ => rfl
  cases found with
  | ref kind owner member =>
    cases kind with
    | field => exact throw rfl
    | method => exact hnames owner member
    | interfaceMethod => exact hnames owner member
  | _ => exact throw rfl

/-- The text of a string constant does not depend on the marks either. -/
theorem stringConstant {p q : Pool} (h : p.Like q) : p.stringConstant = q.stringConstant := by
  funext index
  have htext (text : UInt16) : (p.utf8 text).toOption = (q.utf8 text).toOption :=
    (utf8 text).like p q h
  rw [Pool.stringConstant, Pool.stringConstant]
  rcases h.slot index.toNat with ⟨hp, hq⟩ | ⟨found, other, hp, hq, hsame⟩
  · rw [hp, hq]
  · rw [hp, hq]
    cases found <;> cases other <;> cases hsame
    all_goals first
      | rfl
      | exact htext _

end Question

end Pool

end ClassFile
