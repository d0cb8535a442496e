import ClassFile.Proofs.Collected
import ClassFile.Proofs.Protocol
import ClassFile.Proofs.Safety

/-!
# The record agrees with what was told

A listener is told of a class piece by piece, and the same pieces are put on record. Both give an
*account* of the class: its supertypes, the headers of its members, its nested classes and its
place (`ClassFile.Record.account`, `ClassFile.Account.ofEvents`).

A piece may be told of long before it is on record. In between, the listener's account is ahead
of the record's by that piece (`ClassFile.Decoder.Logs`); whenever one attribute has been read, or
one member, the two are the same (`ClassFile.Decoder.Logged`). The types that were referred to are
those that the listener was told of at any time. So a class that is decoded to its end has a
record that agrees with what was told (`ClassFile.Session.run_agrees`).
-/

namespace ClassFile

/-! ### Accounts -/

/-- What the record of a class has in common with what a listener is told of it. -/
@[ext] structure Account where
  superclasses : List TypeName
  /-- The lists of interfaces. -/
  interfaces : List (List TypeName)
  /-- Flags, name and descriptor of each field. -/
  fields : List (Access × String × String)
  /-- Flags, name and descriptor of each method. -/
  methods : List (Access × String × String)
  innerClasses : List InnerClass
  enclosingMethod : Option EnclosingMethod

/-- The account that a record gives. A class without interfaces has no list of them. -/
def Record.account (record : Record) : Account where
  superclasses := record.superclass.toList
  interfaces := if record.interfaces.isEmpty then [] else [record.interfaces]
  fields := (record.fields.map Member.header).toList
  methods := (record.methods.map Member.header).toList
  innerClasses := record.innerClasses.toList
  enclosingMethod := record.enclosingMethod

namespace Event

/-- The superclass, if that is what is told of. -/
@[simp] def superclass? : Event → Option TypeName
  | .superclass type => some type
  | _ => none

/-- The interfaces, if that is what is told of. -/
@[simp] def interfaces? : Event → Option (List TypeName)
  | .interfaces types => some types
  | _ => none

/-- The header of the field that is told of, if it is a field. -/
@[simp] def field? : Event → Option (Access × String × String)
  | .field member => some member.header
  | _ => none

/-- The header of the method that is told of, if it is a method. -/
@[simp] def method? : Event → Option (Access × String × String)
  | .method member => some member.header
  | _ => none

/-- The entry of the table of nested classes, if that is what is told of. -/
@[simp] def innerClass? : Event → Option InnerClass
  | .innerClass entry => some entry
  | _ => none

/-- The place of the class, if that is what is told of. -/
@[simp] def enclosingMethod? : Event → Option EnclosingMethod
  | .enclosingMethod place => some place
  | _ => none

/-- Whether a type that was referred to is told of. -/
def isReference : Event → Bool
  | .referred _ _ => true
  | _ => false

/-- An event that is no reference is different from every reference, whatever type that refers
to. -/
theorem ne_referred {event : Event} (h : event.isReference = false) (type : TypeName)
    (access : Access) : event ≠ .referred type access := by
  rintro rfl
  cases h

/-- What is told in passing, such as a name that was read or the end of the members, is never a
reference. -/
theorem isReference_of_isRemark {event : Event} (h : event.isRemark = true) :
    event.isReference = false := by
  cases event <;> first | rfl | cases h

end Event

namespace Account

/-- The account that events give, one after the other. The last place that is told of counts. -/
def ofEvents (events : List Event) : Account where
  superclasses := events.filterMap Event.superclass?
  interfaces := events.filterMap Event.interfaces?
  fields := events.filterMap Event.field?
  methods := events.filterMap Event.method?
  innerClasses := events.filterMap Event.innerClass?
  enclosingMethod := (events.filterMap Event.enclosingMethod?).getLast?

/-- One account goes on with another. -/
instance : Append Account where
  append first second :=
    { superclasses := first.superclasses ++ second.superclasses
      interfaces := first.interfaces ++ second.interfaces
      fields := first.fields ++ second.fields
      methods := first.methods ++ second.methods
      innerClasses := first.innerClasses ++ second.innerClasses
      enclosingMethod := second.enclosingMethod.or first.enclosingMethod }

theorem append_def (first second : Account) : first ++ second =
    { superclasses := first.superclasses ++ second.superclasses
      interfaces := first.interfaces ++ second.interfaces
      fields := first.fields ++ second.fields
      methods := first.methods ++ second.methods
      innerClasses := first.innerClasses ++ second.innerClasses
      enclosingMethod := second.enclosingMethod.or first.enclosingMethod } := rfl

/-- An account is made event by event, so of a longer row of events it is longer by what the further
events say. -/
theorem ofEvents_append (events further : List Event) :
    ofEvents (events ++ further) = ofEvents events ++ ofEvents further := by
  simp only [ofEvents, append_def, List.filterMap_append, List.getLast?_append]

/-- Nothing comes of events of which no record is made. -/
theorem append_silent (account : Account) {event : Event}
    (h : ofEvents [event] = ofEvents []) : account ++ ofEvents [event] = account := by
  rw [h, append_def]
  ext1 <;> simp [ofEvents]

/-- A remark says nothing of the class, and so nothing comes of it in the account. -/
theorem ofEvents_remark {event : Event} (h : event.isRemark = true) :
    ofEvents [event] = ofEvents [] := by
  cases event <;> first | rfl | cases h

end Account

namespace Record

/-- Of a class of which only the header is known there is nothing to tell: no supertypes, no
members, and no nested classes. -/
theorem account_header (name : TypeName) (major minor : UInt16) (access : Access) :
    (header name major minor access).account = .ofEvents [] := by
  ext1 <;> simp [header, account, Account.ofEvents]

variable {record : Record}

theorem account_superclass (h : record.superclass = none) (type : TypeName) :
    { record with superclass := some type }.account =
      record.account ++ .ofEvents [.superclass type] := by
  ext1 <;> simp [account, Account.append_def, Account.ofEvents, h]

theorem account_interfaces (h : record.interfaces = []) {types : List TypeName}
    (htypes : types.isEmpty = false) : { record with interfaces := types }.account =
      record.account ++ .ofEvents [.interfaces types] := by
  ext1 <;> simp [account, Account.append_def, Account.ofEvents, h, htypes]

/-- A field that is put on record is the last of the account, as the event that tells of it is the
last of the row. -/
theorem account_field (member : Member) :
    { record with fields := record.fields.push member }.account =
      record.account ++ .ofEvents [.field member] := by
  ext1 <;> simp [account, Account.append_def, Account.ofEvents]

theorem account_method (member : Member) :
    { record with methods := record.methods.push member }.account =
      record.account ++ .ofEvents [.method member] := by
  ext1 <;> simp [account, Account.append_def, Account.ofEvents]

theorem account_putInnerClass (entry : InnerClass) :
    (record.putInnerClass entry).account = record.account ++ .ofEvents [.innerClass entry] := by
  ext1 <;> simp [account, putInnerClass, Account.append_def, Account.ofEvents]

theorem account_putEnclosingMethod (place : EnclosingMethod) :
    (record.putEnclosingMethod place).account =
      record.account ++ .ofEvents [.enclosingMethod place] := by
  ext1 <;> simp [account, putEnclosingMethod, Account.append_def, Account.ofEvents]

/-- Other attributes of a class change nothing of the account: deprecation, the source file, the
signature, and that there are annotations. -/
theorem Aside.account {f : Record → Record} (h : Record.Aside f) (record : Record) :
    (f record).account = record.account := by
  rw [Record.account, h.superclass, h.interfaces, h.fields, h.methods, h.innerClasses,
    h.enclosingMethod]
  rfl

/-- What the attributes of a member say changes nothing of the account, as long as the header of the
member stays: the account tells of headers only. -/
theorem account_updateLast {f : Member → Member} (h : ∀ member, (f member).header = member.header)
    (last : LastMember) (record : Record) :
    (record.updateLast last f).account = record.account := by
  cases last <;> ext1 <;> simp [account, updateLast, Array.map_modify_of_eq h]

end Record

/-! ### Listening while a class is decoded -/

/-- The decoder has this record, its listener was told of all types that were referred to, and
what it was told gives this account of the class. -/
structure Decoder.Logs (listener : Listener) (record : Option Record) (account : Account)
    (s : Decoder) : Prop where
  record : s.record = record
  heard : ∃ events, listener.Told #[] events s.notes ∧ account = .ofEvents events ∧
    ∀ type, type ∈ s.references ↔ ∃ access, .referred type access ∈ events

/-- The decoder has a record that agrees with what its listener was told. -/
def Decoder.Logged (listener : Listener) (p : Record → Prop) (s : Decoder) : Prop :=
  ∃ record, p record ∧ s.Logs listener (some record) record.account

namespace Decoder.Logs

variable {listener : Listener} {record : Option Record} {account : Account} {s t : Decoder}

/-- It does not matter what else is different, as long as the record, the notes and the references
are the same. -/
theorem same (h : s.Logs listener record account) (hrecord : t.record = s.record)
    (hnotes : t.notes = s.notes) (hreferences : t.references = s.references) :
    t.Logs listener record account where
  record := hrecord.trans h.record
  heard := by
    rw [hnotes, hreferences]
    exact h.heard

/-- What is put on record is the record from then on, while the account of what was told stays what
it was. -/
theorem put (h : s.Logs listener record account) (other : Record) :
    Decoder.Logs listener (some other) account { s with record := some other } where
  record := rfl
  heard := h.heard

/-- The listener is told of something, which is a type that was not referred to before, or
nothing that is collected. -/
theorem tell {c : Context} (hlistener : c.listener = some listener) {event : Event}
    (h : s.Logs listener record account) (hrecord : t.record = s.record)
    (hnotes : t.notes = s.notes)
    (hreferences : ∀ type, type ∈ t.references ↔
      type ∈ s.references ∨ ∃ access, event = .referred type access) :
    (t.told c event).Logs listener record (account ++ .ofEvents [event]) := by
  obtain ⟨events, htold, rfl, hevents⟩ := h.heard
  have hone : listener.Told t.notes [event] (t.told c event).notes := by
    rw [Decoder.told, hlistener]
    exact .cons t.session (.nil _)
  have hsame : (t.told c event).record = t.record ∧
      (t.told c event).references = t.references := by
    rw [Decoder.told, hlistener]
    exact ⟨rfl, rfl⟩
  refine ⟨hsame.1.trans (hrecord.trans h.record), events ++ [event], ?_, ?_, fun type => ?_⟩
  · exact htold.append (hnotes ▸ hone)
  · exact (Account.ofEvents_append _ _).symm
  · rw [hsame.2, hreferences, hevents]
    simp only [List.mem_append, List.mem_singleton, exists_or, eq_comm]

/-- The listener is told of something that is not a reference. The account gets longer by what comes
of the event, and the references stay. -/
theorem told {c : Context} (hlistener : c.listener = some listener) {event : Event}
    (h : s.Logs listener record account) (hevent : event.isReference = false) :
    (s.told c event).Logs listener record (account ++ .ofEvents [event]) :=
  h.tell hlistener rfl rfl fun type => by simp [Event.ne_referred hevent]

end Decoder.Logs

namespace Decode

/-- Whatever comes of the step, the log is kept. -/
def KeepsLog (listener : Listener) (record : Option Record) (account : Account) {α : Type}
    (m : Decode α) : Prop :=
  Keeps (Decoder.Logs listener record account) (fun _ => True) m

/-- Whatever comes of the step, the record agrees with what was told if it did before. -/
def KeepsLogged (listener : Listener) {α : Type} (m : Decode α) : Prop :=
  Keeps (Decoder.Logged listener fun _ => True) (fun _ => True) m

namespace KeepsLog

variable {c : Context} {listener : Listener} {record : Option Record} {account : Account}
  {α β : Type}

theorem read (reader : Reader α) : KeepsLog listener record account (read reader) :=
  Keeps.read (fun _ _ hs => hs.same rfl rfl rfl) fun _ _ _ _ => trivial

/-- A question to the pool tells nothing and changes nothing. -/
theorem ask (question : Pool → Except Fault α) : KeepsLog listener record account (ask question) :=
  Keeps.ask fun _ _ _ => trivial

theorem classAt (index : UInt16) : KeepsLog listener record account (classAt index) :=
  .bind (ask _) fun _ => .pure _

theorem count : KeepsLog listener record account count := .bind (read _) fun _ => .pure _

/-- A list that is read keeps what its elements keep, however long it is. -/
theorem listOf {m : Decode α} (hm : KeepsLog listener record account m) (n : Nat) :
    KeepsLog listener record account (listOf n m) := by
  induction n with
  | zero => exact .pure []
  | succ n ih => exact .bind hm fun _ => .bind ih fun _ => .pure _

theorem checkMagic : KeepsLog listener record account checkMagic := by
  refine .bind (read _) fun found => ?_
  split
  · exact .throw trivial
  · exact .pure ()

theorem readPool : KeepsLog listener record account readPool := by
  intro s hs
  rw [Decode.readPool]
  cases Pool.read ⟨s.input, s.pool⟩ with
  | ok _ filled => exact hs.same rfl rfl rfl
  | error fault filled => exact ⟨hs.same rfl rfl rfl, trivial⟩

/-- An exposed type is asked for its package, which is neither told of nor among the references. -/
theorem expose (c : Context) (type : TypeName) (access : Access) :
    KeepsLog listener record account (expose c type access) := by
  intro s hs
  rw [expose_eq]
  exact hs.same rfl rfl (Decoder.Collected.references_expose type access _)

variable (hlistener : c.listener = some listener)
include hlistener

/-- The listener is told of something that gives no account of the class, such as a name that was
read from a descriptor. -/
theorem tell (event : Event) (hsilent : Account.ofEvents [event] = Account.ofEvents [])
    (hevent : event.isReference = false) :
    KeepsLog listener record account (tell c event) := by
  refine .modify fun s hs => ?_
  have htold := hs.told hlistener hevent
  rwa [Account.append_silent account hsilent] at htold

/-- A type that is referred to is collected and told of at the same time. If it was collected
before, it is told of again, and the set of references is the same. -/
theorem refer (type : TypeName) (access : Access) :
    KeepsLog listener record account (refer c type access) := by
  intro s hs
  rw [refer_told]
  by_cases htakes : s.collected.Takes c.namer type
  · rw [if_pos htakes, Decoder.Collected.refer_of_takes htakes]
    have hsilent := Account.append_silent account
      (rfl : Account.ofEvents [.referred type.referent access] = Account.ofEvents [])
    rw [← hsilent]
    refine hs.tell hlistener rfl rfl fun other => ?_
    refine Std.ExtTreeSet.mem_insert.trans (Or.comm.trans (or_congr_right ?_))
    constructor
    · intro hsame
      obtain rfl := Std.LawfulEqOrd.eq_of_compare hsame
      exact ⟨access, rfl⟩
    · rintro ⟨_, heq⟩
      cases heq
      exact Std.ReflOrd.compare_self
  · rw [if_neg htakes]
    rcases Decoder.Collected.refer_of_not_takes htakes access with hsame | hasked
    · rw [hsame]
      exact hs
    · rw [hasked]
      exact hs.same rfl rfl rfl

theorem naming : Naming c c fun m _ => KeepsLog listener record account m where
  pure := .pure
  bind := .bind
  throw _ := .throw trivial
  ask _ := ask _
  named _ := tell hlistener _ rfl rfl
  refer := refer hlistener

theorem pooled : Pooled c c fun m _ => KeepsLog listener record account m where
  toReferring := (naming hlistener).referring
  constant index := by
    refine .bind (fun s hs => hs.same rfl rfl rfl) fun name => ?_
    cases name with
    | none => exact .pure ()
    | some name => exact refer hlistener _ 0
  lookPool hk := .look fun s => hk s s (.refl _)

end KeepsLog

/-! ### Attributes -/

namespace KeepsLogged

variable {c : Context} {listener : Listener} {α : Type}

/-- A step that keeps every log, whatever the record is, keeps the log of the record that there
is. -/
theorem of_log {m : Decode α}
    (h : ∀ record, KeepsLog listener (some record) record.account m) : KeepsLogged listener m := by
  rintro s ⟨record, -, hs⟩
  have hkeeps := h record s hs
  cases hrun : m s with
  | ok a t =>
    rw [hrun] at hkeeps
    exact ⟨record, trivial, hkeeps⟩
  | error fault t =>
    rw [hrun] at hkeeps
    exact ⟨⟨record, trivial, hkeeps.1⟩, trivial⟩

/-- An update of the record keeps what was told if it changes nothing of the account. -/
theorem updateRecord {f : Record → Record} (hf : ∀ record, (f record).account = record.account) :
    KeepsLogged listener (updateRecord f) := by
  rintro s ⟨record, -, hs⟩
  rw [updateRecord_of_some hs.record]
  exact ⟨f record, trivial, (hf record).symm ▸ hs.put (f record)⟩

/-- The decoder turns to no member, which is told to nobody and does not change the record. -/
theorem leaveMember : KeepsLogged listener (modify fun s => { s with last := none }) :=
  .modify fun _ ⟨record, hp, hs⟩ => ⟨record, hp, hs.same rfl rfl rfl⟩

/-- An update of the current member keeps what was told if the header of the member stays. -/
theorem updateMember {f : Member → Member} (hf : ∀ member, (f member).header = member.header) :
    KeepsLogged listener (updateMember f) := by
  refine .modify ?_
  rintro s ⟨record, -, hs⟩
  split
  · rename_i last _
    rw [hs.record]
    refine ⟨record.updateLast last f, trivial, ?_⟩
    rw [Record.account_updateLast hf]
    exact hs.put _
  · exact ⟨record, trivial, hs⟩

/-- Something is told of and put on record. The account is longer by it on both sides, so they agree
again. -/
theorem keep (hlistener : c.listener = some listener) {event : Event} {f : Record → Record}
    (hevent : event.isReference = false)
    (hf : ∀ record, (f record).account = record.account ++ .ofEvents [event]) :
    KeepsLogged listener (tell c event >>= fun _ => Decode.updateRecord f) := by
  rintro s ⟨record, -, hs⟩
  have htold := hs.told hlistener hevent
  have hrun : (tell c event >>= fun _ => Decode.updateRecord f) s =
      .ok () { s.told c event with record := some (f record) } :=
    EStateM.bind_eq rfl (updateRecord_of_some htold.record f)
  rw [hrun]
  exact ⟨f record, trivial, (hf record).symm ▸ htold.put _⟩

variable (hlistener : c.listener = some listener)
include hlistener

/-- **What is read of attributes leaves the record and what was told the same**, as far as the
account of the class goes: what is told of attributes is put on record. -/
theorem lockstep : Lockstep c c fun m _ => KeepsLogged listener m where
  pure a := .pure a
  bind := .bind
  throw _ := .throw trivial
  ask _ := of_log fun _ => .ask _
  referDescriptor index access :=
    of_log fun _ => (KeepsLog.naming hlistener).referDescriptor index access
  referClass index access :=
    of_log fun _ => (KeepsLog.naming hlistener).referring.referClass index access
  look hk := .look fun s => hk s s rfl
  constant index := of_log fun _ => (KeepsLog.pooled hlistener).constant index
  call index := by
    refine of_log fun _ => ?_
    dsimp only [handlers]
    split
    · exact .bind (KeepsLog.ask _) fun _ => KeepsLog.tell hlistener _ rfl rfl
    · exact .pure ()
  loadClass constant := of_log fun _ =>
    (KeepsLog.naming hlistener).loadClass (fun hk => .look fun s => hk s s rfl) constant
  take _ := of_log fun _ => .read _
  within hm := .within (fun _ _ ⟨record, hp, hs⟩ => ⟨record, hp, hs.same rfl rfl rfl⟩) hm
  tell hremark := of_log fun _ => KeepsLog.tell hlistener _ (Account.ofEvents_remark hremark)
    (Event.isReference_of_isRemark hremark)
  annotationType retention access index := of_log fun _ =>
    (KeepsLog.naming hlistener).annotationType (KeepsLog.expose c) retention access index
  attempt index access := of_log fun _ =>
    .succeeds ((KeepsLog.naming hlistener).referDescriptor index access)
  updateRecord hf := updateRecord hf.account
  updateMember hf := updateMember hf.header
  keepDefaultOf :=
    have hasking : Asking fun m _ => KeepsLogged listener m :=
      ⟨fun a => .pure a, .bind, fun _ => .throw trivial, fun _ => of_log fun _ => .ask _⟩
    hasking.keepDefaultOf (d := c) (fun hk => .look fun s => hk s s rfl)
      (fun hremark => of_log fun _ => KeepsLog.tell hlistener _ (Account.ofEvents_remark hremark)
        (Event.isReference_of_isRemark hremark)) fun hf => updateMember hf.header
  keepInnerClass entry :=
    keep hlistener rfl fun record => record.account_putInnerClass entry
  keepEnclosingMethod place :=
    keep hlistener rfl fun record => record.account_putEnclosingMethod place

theorem membersEnd : KeepsLogged listener (tell c .membersEnd) :=
  of_log fun _ => KeepsLog.tell hlistener _ rfl rfl

theorem signatureAttribute (site : Site) (access : Access) :
    KeepsLogged listener (signatureAttribute c site access) :=
  (lockstep hlistener).signatureAttribute (fun _ => updateMember fun _ => rfl) site access

theorem attributes {onCode : Decode Unit} (hcode : KeepsLogged listener onCode) (site : Site)
    (access : Access) : KeepsLogged listener (attributes c onCode site access) :=
  @Lockstep.attributes _ _ _ (lockstep hlistener) (signatureAttribute hlistener) onCode onCode hcode
    site access

theorem code : KeepsLogged listener (code c) :=
  (lockstep hlistener).code (signatureAttribute hlistener) fun code => .look fun s =>
    (lockstep hlistener).walk s.targets code

end KeepsLogged

/-! ### The parts of a class -/

section Parts

variable {c : Context} {listener : Listener} {record : Record} {account : Account} {α : Type}

/-- What is done with the record that the decoder has. Each possible record is looked at by itself,
and then it does not matter which one it was. -/
theorem Leads.of_logs {p : Record → Prop} {J : α → Decoder → Prop} {m : Decode α}
    (h : ∀ record, p record →
      Leads (Decoder.Logs listener (some record) record.account) J m) :
    Leads (Decoder.Logged listener p) J m :=
  fun s a t ⟨record, hp, hs⟩ hrun => h record hp s a t hs hrun

theorem updateRecord_leads (f : Record → Record) :
    Leads (Decoder.Logs listener (some record) account)
      (fun _ => Decoder.Logs listener (some (f record)) account) (updateRecord f) := by
  intro s _ t hs hrun
  rw [updateRecord_of_some hs.record] at hrun
  cases hrun
  exact hs.put (f record)

theorem count_keepsLogged : KeepsLogged listener count := .of_log fun _ => .count

/-- Before the methods it is settled whether bodies are walked through, of which nothing is told. -/
theorem prepareWalks_leads (orphan : Bool) :
    Leads (Decoder.Logged listener fun _ => True) (fun _ => Decoder.Logged listener fun _ => True)
      (prepareWalks orphan) := by
  rintro s _ t ⟨record, -, hs⟩ hrun
  obtain ⟨walking, targets, rfl⟩ := prepareWalks_ok hrun
  exact ⟨record, trivial, hs.same rfl rfl rfl⟩

theorem memberHeader_keepsLogged : KeepsLogged listener memberHeader := by
  refine .of_log fun _ => .bind (KeepsLog.read _) fun _ => .bind (KeepsLog.read _) fun _ => ?_
  refine .bind (KeepsLog.ask _) fun _ => .bind (KeepsLog.read _) fun _ => ?_
  exact .bind (KeepsLog.ask _) fun _ => .pure _

variable (hlistener : c.listener = some listener)
include hlistener

/-- What is told moves the account, and the record follows later. Between the two the log speaks of
the record that there was. -/
theorem tell_leads (event : Event) (hevent : event.isReference = false)
    (record : Option Record) (account : Account) :
    Leads (Decoder.Logs listener record account)
      (fun _ => Decoder.Logs listener record (account ++ .ofEvents [event])) (tell c event) :=
  .modify fun _ hs => hs.told hlistener hevent

/-- A superclass is told of before it is put on record. No superclass and no interfaces may be on
record before, or the account would have another order. -/
theorem superclass_leads (access : Access) :
    Leads (Decoder.Logged listener fun record => record.superclass = none ∧ record.interfaces = [])
      (fun _ => Decoder.Logged listener fun record => record.interfaces = [])
      (superclass c access) := by
  refine .of_logs fun record ⟨hsuperclass, hinterfaces⟩ => .bind (KeepsLog.read _).leads ?_
  intro index
  rw [superclassAt]
  split
  · refine .bind (KeepsLog.classAt index).leads fun type => ?_
    refine .bind (KeepsLog.refer hlistener type access).leads fun _ => ?_
    refine .bind (tell_leads hlistener (.superclass type) rfl _ _) fun _ => ?_
    rw [← Record.account_superclass hsuperclass]
    exact (updateRecord_leads _).imp fun _ s hs =>
      ⟨{ record with superclass := some type }, hinterfaces, hs⟩
  · exact .pure fun s hs => ⟨record, hinterfaces, hs⟩

/-- The interfaces are told of, if there are any, before they are put on record. An empty list is
not told of. -/
theorem interfaces_leads (access : Access) :
    Leads (Decoder.Logged listener fun record => record.interfaces = [])
      (fun _ => Decoder.Logged listener fun _ => True) (interfaces c access) := by
  refine .of_logs fun record hinterfaces => .bind (KeepsLog.count).leads fun n => ?_
  have hinterface : KeepsLog listener (some record) record.account
      (u2 >>= fun index => interfaceAt c access index) :=
    .bind (KeepsLog.read _) fun index =>
      (KeepsLog.naming hlistener).referring.referClass index access
  refine .bind (KeepsLog.listOf hinterface n).leads fun types => ?_
  rw [keepInterfaces]
  by_cases hempty : types.isEmpty = true
  · rw [if_pos hempty, List.isEmpty_iff.1 hempty, ← hinterfaces]
    exact (updateRecord_leads _).imp fun _ s hs => ⟨record, trivial, hs⟩
  · rw [if_neg hempty]
    refine .bind (tell_leads hlistener (.interfaces types) rfl _ _) fun _ => ?_
    rw [← Record.account_interfaces hinterfaces (eq_false_of_ne_true hempty)]
    exact (updateRecord_leads _).imp fun _ s hs => ⟨_, trivial, hs⟩

/-- A field is told of before it is referred to and put on record. In between it is referred to what
its descriptor names, which belongs to no account. -/
theorem openField_leads (header : MemberHeader) :
    Leads (Decoder.Logged listener fun _ => True) (fun _ => Decoder.Logged listener fun _ => True)
      (openField c header) := by
  refine .of_logs fun record _ => ?_
  let member : Member := .field header.access header.name header.descriptor
  have hrest : Leads (Decoder.Logs listener (some record) record.account)
      (fun _ => Decoder.Logged listener fun _ => True)
      (tell c (.field member) >>= fun _ =>
        referDescriptor c header.descriptorIndex header.access >>= fun _ =>
        updateRecord (fun record => { record with fields := record.fields.push member }) >>=
          fun _ => modify fun s => { s with last := some .field }) := by
    refine .bind (tell_leads hlistener (.field member) rfl _ _) fun _ => ?_
    refine .bind ((KeepsLog.naming hlistener).referDescriptor _ _).leads fun _ => ?_
    rw [← Record.account_field]
    refine .bind (updateRecord_leads _) fun _ => .modify fun s hs => ?_
    exact ⟨_, trivial, hs.same rfl rfl rfl⟩
  rw [openField]
  split
  · exact .bind (.modify fun s hs => hs.same rfl rfl rfl) fun _ => hrest
  · exact hrest

/-- A method is told of before it is referred to and put on record. -/
theorem openMethod_leads (header : MemberHeader) :
    Leads (Decoder.Logged listener fun _ => True) (fun _ => Decoder.Logged listener fun _ => True)
      (openMethod c header) := by
  refine .of_logs fun record _ => ?_
  rw [openMethod]
  cases Signature.arguments header.descriptor with
  | error fault =>
    intro s _ t _ hrun
    cases hrun
  | ok arguments =>
    refine .bind (J := fun _ => Decoder.Logs listener (some record) record.account)
      (.pure fun _ hs => hs) fun _ => ?_
    refine .bind (tell_leads hlistener (.method _) rfl _ _) fun _ => ?_
    refine .bind ((KeepsLog.naming hlistener).referDescriptor _ _).leads fun _ => ?_
    rw [← Record.account_method]
    refine .bind (updateRecord_leads _) fun _ => .modify fun s hs => ?_
    exact ⟨_, trivial, hs.same rfl rfl rfl⟩

/-- A whole field, its attributes included, keeps the record and what was told in agreement. -/
theorem field_leads :
    Leads (Decoder.Logged listener fun _ => True) (fun _ => Decoder.Logged listener fun _ => True)
      (field c) := by
  refine .bind memberHeader_keepsLogged.leads fun header => ?_
  refine .bind (openField_leads hlistener header) fun _ => ?_
  exact (KeepsLogged.attributes hlistener (.pure ()) .field header.access).leads

theorem method_leads :
    Leads (Decoder.Logged listener fun _ => True) (fun _ => Decoder.Logged listener fun _ => True)
      (method c) := by
  refine .bind memberHeader_keepsLogged.leads fun header => ?_
  refine .bind (openMethod_leads hlistener header) fun _ => .look fun s _ => ?_
  refine (KeepsLogged.attributes hlistener ?_ _ header.access).leads
  split
  · exact .code hlistener
  · exact .pure ()

/-- Nothing is known of a class but its header when the name is read. The listener has been told of
its version, of which the record says the same. -/
theorem classHeader_leads :
    Leads (Decoder.Logs listener none (.ofEvents []))
      (fun _ => Decoder.Logged listener fun record =>
        record.superclass = none ∧ record.interfaces = [])
      (classHeader c) := by
  refine .bind KeepsLog.checkMagic.leads fun _ => .bind (KeepsLog.read _).leads fun minor => ?_
  refine .bind (KeepsLog.read _).leads fun major => ?_
  refine .bind (KeepsLog.tell hlistener (.version minor major) rfl rfl).leads fun _ => ?_
  refine .bind KeepsLog.readPool.leads fun _ => ?_
  refine .bind (KeepsLog.pooled hlistener).referPool.leads fun _ => .look fun s _ => ?_
  refine .bind (KeepsLog.read _).leads fun access => .bind (KeepsLog.read _).leads fun index => ?_
  refine .bind (KeepsLog.classAt index).leads fun name => .bind ?_ fun _ => .pure fun _ hs => hs
  refine .bind (.modify fun _ hs => hs.same rfl rfl rfl) fun _ => ?_
  refine .bind (KeepsLog.refer hlistener name _).leads fun _ => .modify fun s hs => ?_
  refine ⟨.header name major minor access, ⟨rfl, rfl⟩, ?_⟩
  rw [Record.account_header]
  exact hs.put _

/-- **Everything after the name of a class**, if it can be decoded. In the end the references are
those that were told of, and the record has the account of all that was told. -/
theorem classBody_leads (orphan : Bool) :
    Leads
      (Decoder.Logged listener fun record => record.superclass = none ∧ record.interfaces = [])
      (fun record t => record.references = t.references ∧
        ∃ found, t.Logs listener found record.account)
      (classBody c orphan) := by
  refine .bind .record fun record => ?_
  refine .bind (superclass_leads hlistener record.access) fun _ => ?_
  refine .bind (interfaces_leads hlistener record.access) fun _ => ?_
  refine .bind count_keepsLogged.leads fun n =>
    .bind ((field_leads hlistener).repeated n) fun _ => ?_
  refine .bind (prepareWalks_leads orphan) fun _ => ?_
  refine .bind count_keepsLogged.leads fun n =>
    .bind ((method_leads hlistener).repeated n) fun _ => ?_
  refine .bind (KeepsLogged.membersEnd hlistener).leads fun _ => ?_
  refine .bind KeepsLogged.leaveMember.leads fun _ => ?_
  refine .bind (KeepsLogged.attributes hlistener (.pure ()) .type record.access).leads fun _ => ?_
  rintro s record t ⟨_, -, hs⟩ hrun
  obtain ⟨rfl, found, hfound, rfl⟩ := ok_of_finish hrun
  cases hfound.symm.trans hs.record
  exact ⟨rfl, _, hs⟩

end Parts

end Decode

/-- **The record of a class agrees with what its listener was told**, whatever the file, and
whoever listens, if the class is decoded to its end. The types that it refers to are those that
the listener was told of as references. It has the superclass and the interfaces that were told of,
if any were, the fields and methods with the flags, names and descriptors that were told of, and
the nested classes, all in the order of the telling; and its place is the last one that was told
of. -/
theorem Session.run_agrees {options : Options} {listener : Listener} {bytes : Bytes}
    {session : Session} {record : Record}
    (h : (session.run options (some listener) bytes).outcome = .ok (some record)) :
    ∃ events, listener.Told #[] events
        (session.run options (some listener) bytes).notes.toArray ∧
      (listener.Candid →
        (session.run options (some listener) bytes).notes.filterMap Note.event? = events) ∧
      (∀ type, type ∈ record.references ↔ ∃ access, .referred type access ∈ events) ∧
      record.account = .ofEvents events := by
  obtain ⟨t, hrun, hnotes⟩ := classFile_of_run h
  have hstart : (session.decoder options (some listener) bytes).Logs listener none
      (.ofEvents []) := by
    refine ⟨rfl, [], .nil #[], rfl, fun type => ?_⟩
    exact iff_of_false Std.ExtTreeSet.not_mem_empty (by simp)
  rw [Decode.classFile_eq] at hrun
  obtain ⟨⟨header, orphan⟩, s, hheader, hrest⟩ := EStateM.ok_of_bind hrun
  obtain ⟨u, hbody, rfl⟩ := Decode.afterHeader_ok hrest
  obtain ⟨found, hfound, hs⟩ := Decode.classHeader_leads rfl _ _ _ hstart hheader
  -- the start and the end of the class are told of, and give no account of it
  have hbegun := Decode.KeepsLog.tell (c := ⟨options.namer, some listener⟩) rfl
    (.classStart header) rfl rfl s hs
  obtain ⟨hreferences, last, hu⟩ := Decode.classBody_leads rfl orphan _ _ _
    ⟨found, hfound, hbegun⟩ hbody
  have hended := Decode.KeepsLog.tell (c := ⟨options.namer, some listener⟩) rfl
    .classEnd rfl rfl u hu
  obtain ⟨events, htold, haccount, hevents⟩ := hended.heard
  rw [hnotes, Array.toArray_toList]
  refine ⟨events, htold, fun hcandid => htold.of_candid hcandid, fun type => ?_, haccount⟩
  rw [hreferences]
  exact hevents type

/-- A class `A` with a superclass `a/C`, a field of the class `a/B`, and a table of nested classes
with one entry. -/
theorem Session.run_agrees_of_field :
    let file : Bytes :=
      [0xCA, 0xFE, 0xBA, 0xBE, 0, 0, 0, 52, 0, 8, 1, 0, 1, 65, 7, 0, 1, 1, 0, 1, 102, 1, 0, 5, 76,
      97, 47, 66, 59, 1, 0, 3, 97, 47, 67, 7, 0, 5, 1, 0, 12, 73, 110, 110, 101, 114, 67, 108, 97,
      115, 115, 101, 115, 0, 0x21, 0, 2, 0, 6, 0, 0, 0, 1, 0, 1, 0, 3, 0, 4, 0, 0, 0, 0, 0, 1, 0,
      7, 0, 0, 0, 10, 0, 1, 0, 2, 0, 0, 0, 0, 0, 9]
    let run := Session.run {} (some .passive) file {}
    ∃ record, run.outcome = .ok (some record) ∧
      ∃ events, Listener.Told .passive #[] events run.notes.toArray ∧
        (Listener.Candid .passive → run.notes.filterMap Note.event? = events) ∧
        (∀ type, type ∈ record.references ↔ ∃ access, .referred type access ∈ events) ∧
        record.account = .ofEvents events := by
  intro file run
  have hok : (run.outcome.toOption.bind id).isSome = true := by decide +kernel
  obtain ⟨record, hrecord⟩ := Option.isSome_iff_exists.1 hok
  have hrun : run.outcome = .ok (some record) := by
    generalize run.outcome = outcome at hrecord
    match outcome, hrecord with
    | .ok (some _), rfl => rfl
  exact ⟨record, hrun, Session.run_agrees hrun⟩

end ClassFile
