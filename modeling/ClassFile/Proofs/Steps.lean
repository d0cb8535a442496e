import ClassFile.Bytecode.Row
import ClassFile.Proofs.Composed
import ClassFile.Proofs.Outlines

/-!
# Steps of a decoding

Most of what can be said of a decoding is said step by step: that a step keeps an
invariant, that it does the same from two states that differ in some respect, that it
needs no more bytes than it takes. What is different each time is the relation `P`
between two steps (or the property of one). What is the same each time is how the
readers of annotations, attributes and method bodies are put together from steps.

This file lists what a relation has to be closed under: composition, failure, and the few things
that the readers do to a decoder (`ClassFile.Decode.Lockstep`). That the readers are related to
themselves is in `ClassFile.Proofs.Lockstep`.

The things on the list are whole: what is referred to is named by the pool at some index, and
what is told of a nested class is put on record. So a relation may say where a reference comes
from, and that the record is what was told. Where it need not, `ClassFile.Decode.Naming` has the
parts of which these things are made, and they follow from the parts
(`ClassFile.Decode.Elementary.lockstep`).

Not every relation respects everything. Annotations that refer to nothing need no more than
`ClassFile.Decode.Reading`, those of members no more than `ClassFile.Decode.Annotating`, and
attributes that name nothing but class constants no more than `ClassFile.Decode.Detailing`; what is
missing is then an assumption on the single attribute. Calls of methods are apart from all others: a
relation that does not respect them respects no walk, but it can respect everything around a method
body (`ClassFile.Decode.Signing`).

A walk through a method body acts on one instruction after the other, so that it is related to
itself if each action is (`ClassFile.Decode.Walking.walk`).
-/

namespace ClassFile

namespace Decode

section Things

variable (context : Context)

/-- The class at an index, which is referred to. -/
def referClass (index : UInt16) (access : Access) : Decode TypeName := do
  let type ← classAt index
  refer context type access
  return type

/-- What comes of a call that loads a class by the constant that was loaded before. -/
def loadClass (constant : UInt16) : Decode (Option UInt16) := do
  match (← get).pool.stringConstant constant with
  | some text =>
    if Handlers.namesClass text then refer context (.ofDotted text) 0
    return none
  | none => return some constant

/-- An entry of the table of nested classes is told of and put on record. -/
def keepInnerClass (entry : InnerClass) : Decode Unit := do
  tell context (.innerClass entry)
  updateRecord (Record.putInnerClass entry)

/-- The place of the class is told of and put on record. -/
def keepEnclosingMethod (place : EnclosingMethod) : Decode Unit := do
  tell context (.enclosingMethod place)
  updateRecord (Record.putEnclosingMethod place)

end Things

/-- A relation between steps that is closed under composition and failure, and that relates
questions to the pool. -/
structure Asking (P : ∀ {α : Type}, Decode α → Decode α → Prop) : Prop where
  pure {α : Type} (a : α) : P (Pure.pure a : Decode α) (Pure.pure a)
  bind {α β : Type} {m m' : Decode α} {f f' : α → Decode β} :
    P m m' → (∀ a, P (f a) (f' a)) → P (m >>= f) (m' >>= f')
  throw {α : Type} {fault : Fault} (h : fault.isInternal = false) :
    P (MonadExcept.throw fault : Decode α) (MonadExcept.throw fault)
  ask {α : Type} {question : Pool → Except Fault α} (h : Pool.Question question) :
    P (ask question) (ask question)

/-- A relation between steps that relates what is referred to by an index of the pool under the
two contexts. -/
structure Referring (c d : Context) (P : ∀ {α : Type}, Decode α → Decode α → Prop) : Prop
    extends Asking P where
  referDescriptor (index : UInt16) (access : Access) :
    P (referDescriptor c index access) (referDescriptor d index access)
  referClass (index : UInt16) (access : Access) :
    P (referClass c index access) (referClass d index access)

/-- A relation between steps that relates what is done with a name under the two contexts,
wherever the name comes from. -/
structure Naming (c d : Context) (P : ∀ {α : Type}, Decode α → Decode α → Prop) : Prop
    extends Asking P where
  named (type : TypeName) : P (tell c (.named type)) (tell d (.named type))
  refer (type : TypeName) (access : Access) : P (refer c type access) (refer d type access)

/-- A relation between steps that a walk through a method body respects. -/
structure Walking (c d : Context) (P : ∀ {α : Type}, Decode α → Decode α → Prop) : Prop
    extends Referring c d P where
  constant (index : UInt16) : P (referClassConstant c index) (referClassConstant d index)
  call (index : UInt16) : P ((handlers c).method index) ((handlers d).method index)
  loadClass (constant : UInt16) : P (loadClass c constant) (loadClass d constant)

/-- A relation between steps that is respected when something is told of an attribute and put on
record of a member. On record of the class is only put that a type of annotations was found. It does
not matter what is looked at, as long as a glimpse does not tell. -/
structure Remarking (c d : Context) (P : ∀ {α : Type}, Decode α → Decode α → Prop) : Prop
    extends Asking P where
  look {α : Type} {k k' : Decoder → Decode α} :
    (∀ s t, s.glimpse = t.glimpse → P (k s) (k' t)) → P (get >>= k) (get >>= k')
  tell {event : Event} (h : event.isRemark = true) : P (tell c event) (tell d event)
  note (type : TypeName) (retention : Retention) :
    P (Decode.noteAnnotation type retention) (Decode.noteAnnotation type retention)
  updateMember {f : Member → Member} : Member.Marginal f → P (updateMember f) (updateMember f)
  keepDefaultOf (value : Value) : P (keepDefaultOf c value) (keepDefaultOf d value)

/-- A relation between steps that is respected as well when an attribute is put on record of the
class. -/
structure Noting (c d : Context) (P : ∀ {α : Type}, Decode α → Decode α → Prop) : Prop
    extends Remarking c d P where
  updateRecord {f : Record → Record} : Record.Aside f → P (updateRecord f) (updateRecord f)
  note type retention := updateRecord (Record.aside_note type retention)

/-- A relation between steps that annotations of members respect, if they refer to nothing. -/
structure Annotating (c d : Context) (P : ∀ {α : Type}, Decode α → Decode α → Prop) : Prop
    extends Remarking c d P where
  take (n : Nat) : P (read (Input.take n)) (read (Input.take n))
  within {bytes : Bytes} {m m' : Decode Unit} : P m m' → P (within bytes m) (within bytes m')

/-- A relation between steps that all annotations respect, if they refer to nothing. -/
structure Reading (c d : Context) (P : ∀ {α : Type}, Decode α → Decode α → Prop) : Prop
    extends Noting c d P, Annotating c d P

/-- A relation between steps that those attributes respect that name nothing but class
constants. -/
structure Detailing (c d : Context) (P : ∀ {α : Type}, Decode α → Decode α → Prop) : Prop
    extends Reading c d P where
  constant (index : UInt16) : P (referClassConstant c index) (referClassConstant d index)
  keepInnerClass (entry : InnerClass) : P (keepInnerClass c entry) (keepInnerClass d entry)
  keepEnclosingMethod (place : EnclosingMethod) :
    P (keepEnclosingMethod c place) (keepEnclosingMethod d place)

/-- A relation between steps that the readers of attributes respect, as far as they name no
annotation and walk through no method body: it relates the elementary steps of a reader under the
two contexts, and whether a signature is well formed, which is tried out. -/
structure Signing (c d : Context) (P : ∀ {α : Type}, Decode α → Decode α → Prop) : Prop
    extends Referring c d P, Detailing c d P where
  attempt (index : UInt16) (access : Access) :
    P (succeeds (Decode.referDescriptor c index access))
      (succeeds (Decode.referDescriptor d index access))

/-- **A relation between steps that the readers of attributes respect**, those of method bodies
included, as far as they name no annotation. -/
structure Stepwise (c d : Context) (P : ∀ {α : Type}, Decode α → Decode α → Prop) : Prop
    extends Walking c d P, Signing c d P

/-- **A relation between steps that the readers of attributes respect**, those of annotations
included. -/
structure Lockstep (c d : Context) (P : ∀ {α : Type}, Decode α → Decode α → Prop) : Prop
    extends Stepwise c d P where
  annotationType (retention : Retention) (access : Access) (index : UInt16) :
    P (annotationType c retention access index) (annotationType d retention access index)

/-- A relation between steps that relates even the parts of which the steps of a reader are
made: it does not matter which names are referred to, or what is put on record with what is
told. -/
structure Elementary (c d : Context) (P : ∀ {α : Type}, Decode α → Decode α → Prop) : Prop
    extends Naming c d P where
  look {α : Type} {k k' : Decoder → Decode α} :
    (∀ s t, s.glance = t.glance → P (k s) (k' t)) → P (get >>= k) (get >>= k')
  constant (index : UInt16) : P (referClassConstant c index) (referClassConstant d index)
  call (index : UInt16) : P ((handlers c).method index) ((handlers d).method index)
  take (n : Nat) : P (read (Input.take n)) (read (Input.take n))
  within {bytes : Bytes} {m m' : Decode Unit} : P m m' → P (within bytes m) (within bytes m')
  tell {event : Event} (h : event.isDetail = true) : P (tell c event) (tell d event)
  expose (type : TypeName) (access : Access) : P (expose c type access) (expose d type access)
  attempt (index : UInt16) (access : Access) :
    P (succeeds (referDescriptor c index access)) (succeeds (referDescriptor d index access))
  updateRecord {f : Record → Record} : Record.Marginal f → P (updateRecord f) (updateRecord f)
  updateMember {f : Member → Member} : Member.Marginal f → P (updateMember f) (updateMember f)

end Decode

/-! ### Faults of the readers -/

/-- None of the faults of a step is internal. -/
def Outward {σ α : Type} (m : EStateM Fault σ α) : Prop :=
  ∀ s fault t, m s = .error fault t → fault.isInternal = false

namespace Outward

variable {σ α β : Type}

theorem pure (a : α) : Outward (Pure.pure a : EStateM Fault σ α) := fun _ _ _ h => nomatch h

theorem throw {fault : Fault} (h : fault.isInternal = false) :
    Outward (MonadExcept.throw fault : EStateM Fault σ α) := by
  intro s other t hrun
  cases hrun
  exact h

/-- The faults of two steps in a row are those of the first one, and those of the second one. -/
theorem bind {m : EStateM Fault σ α} {f : α → EStateM Fault σ β} (hm : Outward m)
    (hf : ∀ a, Outward (f a)) : Outward (m >>= f) := by
  intro s fault u h
  simp only [Bind.bind, EStateM.bind] at h
  cases hrun : m s with
  | ok a t =>
    rw [hrun] at h
    exact hf a t fault u h
  | error other t =>
    rw [hrun] at h
    cases h
    exact hm s _ _ hrun

/-- To take bytes fails only at the end of the input. -/
theorem take (n : Nat) : Outward (Input.take n) := by
  intro input fault rest h
  rw [Input.take] at h
  split at h
  · cases h
  · cases h
    rfl

/-- What is read of a file has faults of the file: the input may end early, and numbers may be out
of range. -/
theorem composed : Reader.Composed fun m => Outward m where
  pure := pure
  throw := throw
  bind := bind
  take := take

/-- No instruction has a fault that is internal, whatever its opcode is. -/
theorem instruction : Outward Instruction.read :=
  composed.instruction fun input => composed.skip _ input

/-- What keeps code from being read to its end is a fault of the code, however many instructions
were read before. -/
theorem rowFrom {fuel : Nat} {input : Input} {fault : Fault}
    (h : (Instruction.rowFrom fuel input).fault = some fault) : fault.isInternal = false := by
  induction fuel generalizing input with
  | zero => cases h
  | succ fuel ih =>
    rw [Instruction.rowFrom] at h
    split at h
    · cases h
    split at h
    · rename_i hread
      cases h
      exact instruction _ _ _ hread
    split at h
    · rename_i hskip
      cases h
      exact composed.skip _ _ _ _ hskip
    · exact ih h

end Outward

/-- A text that follows no grammar is a fault of the file. -/
theorem Signature.isInternal_of_scan {text : String} {fault : Fault}
    (h : (Signature.scan text).fault = some fault) : fault.isInternal = false := by
  obtain ⟨why, -, rfl⟩ := Option.map_eq_some_iff.1 h
  rfl

namespace Decode

/-! ### Readings as steps -/

section Readers

variable {α β : Type}

/-- A reader that goes on is a step that goes on. -/
theorem read_bind (reader : Reader α) (f : α → Reader β) :
    read (reader >>= f) = read reader >>= fun a => read (f a) := by
  funext s
  simp only [read, bind, EStateM.bind]
  cases reader s.input <;> rfl

end Readers

/-! ### The pool and what it names -/

/-- The entry, unless it is a class: then the fault that is made of it. -/
def unlessClass (fault : UInt16 → Bool → Fault) : Entry → Except Fault Entry
  | .classInfo name mark => .error (fault name mark)
  | found => .ok found

namespace Asking

variable {P : ∀ {α : Type}, Decode α → Decode α → Prop}

/-- A loop over what was read is respected if its rounds are. -/
theorem forM (h : Asking P) {α : Type} {f f' : α → Decode Unit} (xs : List α)
    (hf : ∀ x ∈ xs, P (f x) (f' x)) : P (xs.forM f) (xs.forM f') := by
  induction xs with
  | nil => exact h.pure ()
  | cons x xs ih =>
    exact h.bind (hf x List.mem_cons_self) fun _ => ih fun y hy => hf y (List.mem_cons_of_mem x hy)

/-- So is a loop that puts values together, in the order of the list. -/
theorem mapM (h : Asking P) {α β : Type} {f f' : α → Decode β} (xs : List α)
    (hf : ∀ x ∈ xs, P (f x) (f' x)) : P (xs.mapM f) (xs.mapM f') := by
  induction xs with
  | nil => exact h.pure []
  | cons x xs ih =>
    rw [List.mapM_cons, List.mapM_cons]
    refine h.bind (hf x List.mem_cons_self) fun y => h.bind (ih ?_) fun ys => h.pure _
    exact fun z hz => hf z (List.mem_cons_of_mem x hz)

/-- What is done with an entry, if it fails for a class: then the mark is not seen. It is the one
way in which entries are looked at while a class is decoded. -/
theorem entry (h : Asking P) (index : UInt16) {α : Type} {k k' : Entry → Decode α}
    {fault : UInt16 → Bool → Fault}
    (hclass : ∀ name mark, k (.classInfo name mark) = MonadExcept.throw (fault name mark))
    (hclass' : ∀ name mark, k' (.classInfo name mark) = MonadExcept.throw (fault name mark))
    (houtward : ∀ name mark, (fault name mark).isInternal = false)
    (hk : ∀ found, (∀ name mark, found ≠ .classInfo name mark) → P (k found) (k' found)) :
    P (Decode.ask (·.entry index) >>= k) (Decode.ask (·.entry index) >>= k') := by
  have hquestion : Pool.Question fun pool => pool.entry index >>= unlessClass fault := by
    refine .entry index (fun found => ?_) fun _ _ _ => rfl
    cases found with
    | classInfo name mark => exact .throw (houtward name mark)
    | _ => exact .pure _
  have hask {k : Entry → Decode α}
      (hclass : ∀ name mark, k (.classInfo name mark) = MonadExcept.throw (fault name mark)) :
      Decode.ask (·.entry index) >>= k =
        Decode.ask (fun pool => pool.entry index >>= unlessClass fault) >>= k := by
    funext s
    change EStateM.bind _ k s = EStateM.bind _ k s
    rw [EStateM.bind, EStateM.bind, Decode.ask, Decode.ask]
    cases hentry : s.pool.entry index with
    | error fault => rfl
    | ok found =>
      cases found with
      | classInfo name mark => exact congrFun (hclass name mark) s
      | _ => rfl
  rw [hask hclass, hask hclass']
  refine h.bind (h.ask hquestion) fun found => ?_
  cases found with
  | classInfo name mark =>
    rw [hclass, hclass']
    exact h.throw (houtward name mark)
  | _ => exact hk _ fun _ _ h => by cases h

theorem utf8 (h : Asking P) (index : UInt16) : P (utf8 index) (utf8 index) :=
  h.ask (.utf8 index)

/-- The name of the class at an index, which is a text that was found through a class constant. The
mark of the constant is not asked for. -/
theorem classAt (h : Asking P) (index : UInt16) : P (classAt index) (classAt index) :=
  h.bind (h.ask (.className index)) fun _ => h.pure _

/-- A number at an index is an entry that is asked for, and a fault if the entry is of another
kind. -/
theorem intConstant (h : Asking P) (index : UInt16) :
    P (intConstant index) (intConstant index) := by
  refine h.entry index (fun _ _ => rfl) (fun _ _ => rfl) (fun _ _ => rfl) fun found _ => ?_
  cases found with
  | integer value => exact h.pure value
  | _ => exact h.throw rfl

/-- A name with its descriptor, which are two texts behind one entry. -/
theorem nameAndType (h : Asking P) (index : UInt16) :
    P (Decode.ask (·.nameAndType index)) (Decode.ask (·.nameAndType index)) :=
  h.ask (.nameAndType index)

/-- The class at an index that may be zero, which stands for no class. -/
theorem classAt? (h : Asking P) (index : UInt16) : P (classAt? index) (classAt? index) := by
  rw [Decode.classAt?]
  split
  · exact h.pure none
  · exact h.bind (h.classAt index) fun _ => h.pure _

end Asking

/-- The generic signature at an index, given what happens when it is tried out, and when it is put
on record: this is the one attribute that changes an outline. -/
theorem Remarking.signatureAt {c d : Context} {P : ∀ {α : Type}, Decode α → Decode α → Prop}
    (h : Remarking c d P) {index : UInt16} {access : Access} {site : Site}
    (hattempt : P (succeeds (referDescriptor c index access))
      (succeeds (referDescriptor d index access)))
    (hclass : site = .type → ∀ text,
      P (updateRecord fun record => { record with signature := some text })
        (updateRecord fun record => { record with signature := some text }))
    (hsign : ∀ text, P (Decode.updateMember fun member => { member with signature := some text })
      (Decode.updateMember fun member => { member with signature := some text })) :
    P (Decode.signatureAt c site access index) (Decode.signatureAt d site access index) := by
  refine h.bind hattempt fun accepted => ?_
  split
  · refine h.bind (h.utf8 index) fun text => h.bind (h.tell rfl) fun _ => ?_
    split
    · exact hclass ‹_› text
    · exact hsign text
  · exact h.pure ()

/-- What a class says of itself in a signature is put on record, if the text can be read to its end.
The trial is given, for it goes beyond the record. -/
theorem Noting.signatureAt {c d : Context} {P : ∀ {α : Type}, Decode α → Decode α → Prop}
    (h : Noting c d P) {index : UInt16} {access : Access}
    (hattempt : P (succeeds (referDescriptor c index access))
      (succeeds (referDescriptor d index access)))
    (hsign : ∀ text, P (Decode.updateMember fun member => { member with signature := some text })
      (Decode.updateMember fun member => { member with signature := some text })) (site : Site) :
    P (Decode.signatureAt c site access index) (Decode.signatureAt d site access index) :=
  h.toRemarking.signatureAt hattempt
    (fun _ text => h.updateRecord (Record.aside_signature text)) hsign

/-! ### Names in parts -/

namespace Naming

variable {c d : Context} {P : ∀ {α : Type}, Decode α → Decode α → Prop}

/-- The names of a text are mentioned one after the other: each is told of, and referred to. -/
theorem mentions (h : Naming c d P) (access : Access) (names : List String) :
    P (names.forM (mention c access)) (names.forM (mention d access)) := by
  induction names with
  | nil => exact h.pure ()
  | cons name names ih =>
    exact h.bind (h.bind (h.named _) fun _ => h.refer _ access) fun _ => ih

/-- A text is mentioned by its names, and then its fault is thrown, if there is one. -/
theorem referText (h : Naming c d P) (text : String) (access : Access) :
    P (referText c text access) (referText d text access) := by
  refine h.bind (h.mentions access _) fun _ => ?_
  cases hfault : (Signature.scan text).fault with
  | none => exact h.pure ()
  | some fault => exact h.throw (Signature.isInternal_of_scan hfault)

/-- What is referred to by an index is made of names: a descriptor, or the text of a class. -/
theorem referring (h : Naming c d P) : Referring c d P where
  pure := h.pure
  bind := h.bind
  throw := h.throw
  ask := h.ask
  referDescriptor index access := h.bind (h.ask (.utf8 index)) fun text => h.referText text access
  referClass index access :=
    h.bind (h.bind (h.ask (.className index)) fun _ => h.pure _) fun type =>
      h.bind (h.refer type access) fun _ => h.pure type

/-- A descriptor is the text at an index. -/
theorem referDescriptor (h : Naming c d P) (index : UInt16) (access : Access) :
    P (referDescriptor c index access) (referDescriptor d index access) :=
  h.referring.referDescriptor index access

/-- A class that is loaded by name is referred to, if the text is one that can name a class. Only
the constants are looked at. -/
theorem loadClass (h : Naming c d P)
    (hlook : ∀ {α : Type} {k k' : Decoder → Decode α},
      (∀ s t, s.glimpse = t.glimpse → P (k s) (k' t)) → P (get >>= k) (get >>= k'))
    (constant : UInt16) : P (loadClass c constant) (loadClass d constant) := by
  refine hlook fun s t hst => ?_
  have htext : s.pool.stringConstant constant = t.pool.stringConstant constant :=
    congrFun (congrArg Decoder.Glimpse.text hst) constant
  rw [htext]
  cases t.pool.stringConstant constant with
  | none => exact h.pure _
  | some text =>
    dsimp only
    split
    · exact h.bind (h.refer _ 0) fun _ => h.pure none
    · exact h.pure none

/-- The type of an annotation is referred to and exposed, unless the annotation cannot be seen at
run time. -/
theorem annotationType (h : Naming c d P)
    (hexpose : ∀ type access, P (expose c type access) (expose d type access))
    (retention : Retention) (access : Access) (index : UInt16) :
    P (annotationType c retention access index) (annotationType d retention access index) := by
  refine h.bind (h.ask (.utf8 index)) fun text => ?_
  cases retention with
  | runtime =>
    exact h.bind (h.referDescriptor index 0) fun _ => h.bind (hexpose _ access) fun _ => h.pure _
  | compiled => exact h.pure _

end Naming

/-- The default value of an annotation's element is related if its parts are: where a decoder is,
and which method is the last, is all that is looked at. -/
theorem Asking.keepDefaultOf {c d : Context} {P : ∀ {α : Type}, Decode α → Decode α → Prop}
    (h : Asking P)
    (hlook : ∀ {α : Type} {k k' : Decoder → Decode α},
      (∀ s t, s.glance = t.glance → P (k s) (k' t)) → P (get >>= k) (get >>= k'))
    (htell : ∀ {event : Event}, event.isRemark = true → P (tell c event) (tell d event))
    (hupdate : ∀ {f : Member → Member}, Member.Marginal f → P (updateMember f) (updateMember f))
    (value : Value) : P (keepDefaultOf c value) (keepDefaultOf d value) := by
  refine hlook fun s t hst => ?_
  rw [show s.last = t.last from congrArg Decoder.Glance.last hst]
  split
  · refine hlook fun s t hst => ?_
    rw [show s.record.bind (·.methods.back?) = t.record.bind (·.methods.back?) from
      congrArg Decoder.Glance.method hst]
    split
    · exact h.bind (htell rfl) fun _ => hupdate (by constructor <;> intro <;> rfl)
    · exact h.pure ()
  · exact h.pure ()

/-- What is related in its parts is related as a whole: attributes are made of numbers, texts and
names that are referred to. -/
theorem Elementary.lockstep {c d : Context} {P : ∀ {α : Type}, Decode α → Decode α → Prop}
    (h : Elementary c d P) : Lockstep c d P where
  toReferring := h.referring
  look hk := h.look fun s t hst => hk s t (Decoder.glimpse_eq hst)
  constant := h.constant
  call := h.call
  loadClass := h.loadClass fun hk => h.look fun s t hst => hk s t (Decoder.glimpse_eq hst)
  take := h.take
  within := h.within
  tell hremark := h.tell (Event.isDetail_of_isRemark hremark)
  keepDefaultOf := h.keepDefaultOf h.look
    (fun hremark => h.tell (Event.isDetail_of_isRemark hremark)) h.updateMember
  annotationType := h.annotationType h.expose
  attempt := h.attempt
  updateRecord hf := h.updateRecord hf.toMarginal
  updateMember := h.updateMember
  keepInnerClass entry :=
    h.bind (h.tell rfl) fun _ => h.updateRecord (Record.marginal_putInnerClass entry)
  keepEnclosingMethod place :=
    h.bind (h.tell rfl) fun _ => h.updateRecord (Record.marginal_putEnclosingMethod place)

/-! ### Walks through method bodies -/

/-- What a walk does at a call of a method that loads a class, by the constant that was loaded
before: it is told of the call, and then the class is loaded. -/
theorem act_invokeStatic (context : Context) {targets : Targets} {index : UInt16}
    (h : targets.contain index = true) (constant : UInt16) :
    (handlers context).act targets (some constant) (.invokeStatic index) =
      (handlers context).method index >>= fun _ => loadClass context constant := by
  simp only [Handlers.act, h]
  refine bind_congr fun _ => bind_congr fun s => ?_
  cases htext : s.pool.stringConstant constant <;> simp only [handlers, htext]

/-- Nothing is loaded without a constant, or by another method, and then the constant stays as it
was. -/
theorem act_invokeStatic_of_not {σ : Type} (handlers : Handlers σ) {targets : Targets}
    {last : Option UInt16} {index : UInt16}
    (h : ¬(targets.contain index = true ∧ last.isSome = true)) :
    handlers.act targets last (.invokeStatic index) =
      handlers.method index >>= fun _ => pure last := by
  rw [Handlers.act]
  rintro constant htarget rfl
  exact h ⟨htarget, rfl⟩

namespace Walking

variable {c d : Context} {P : ∀ {α : Type}, Decode α → Decode α → Prop}

/-- To act on an instruction is respected, instruction by instruction. The two walks must have the
same targets and have loaded the same constant. -/
theorem act (h : Walking c d P) (targets : Targets) (last : Option UInt16) (action : Action) :
    P ((handlers c).act targets last action) ((handlers d).act targets last action) := by
  cases action with
  | load index => exact h.bind (h.constant index) fun _ => h.pure _
  | type index => exact h.bind (h.constant index) fun _ => h.pure _
  | invoke index => exact h.bind (h.call index) fun _ => h.pure _
  | invokeStatic index =>
    by_cases hloads : targets.contain index = true ∧ last.isSome = true
    · obtain ⟨htarget, hlast⟩ := hloads
      obtain ⟨constant, rfl⟩ := Option.isSome_iff_exists.1 hlast
      rw [act_invokeStatic c htarget, act_invokeStatic d htarget]
      exact h.bind (h.call index) fun _ => h.loadClass constant
    · rw [act_invokeStatic_of_not _ hloads, act_invokeStatic_of_not _ hloads]
      exact h.bind (h.call index) fun _ => h.pure last
  | widened => exact h.pure last
  | other => exact h.pure none

/-- So are all instructions of a body, by induction over them. -/
theorem follow (h : Walking c d P) (targets : Targets) (last : Option UInt16)
    (actions : List Action) :
    P ((handlers c).follow targets last actions) ((handlers d).follow targets last actions) := by
  induction actions generalizing last with
  | nil => exact h.pure last
  | cons action actions ih =>
    rw [Handlers.follow_cons, Handlers.follow_cons]
    exact h.bind (h.act targets last action) fun next => ih next

/-- A walk that looks for the same methods that load classes is respected, from its first
instruction on. -/
theorem walk (h : Walking c d P) (targets : Targets) (code : Bytes) :
    P ((handlers c).walk targets code) ((handlers d).walk targets code) := by
  rw [Handlers.walk_eq, Handlers.walk_eq]
  refine h.bind (h.follow targets none _) fun _ => ?_
  cases hfault : (Instruction.row code).fault with
  | none => exact h.pure ()
  | some fault => exact h.throw (Outward.rowFrom hfault)

end Walking

end Decode

end ClassFile
