import ClassFile.Proofs.Bounds
import ClassFile.Proofs.Descent
import ClassFile.Proofs.Invariant
import ClassFile.Session

/-!
# No decoding crashes

A decoding ends with a record, with a class that its listener does not admit, or with a fault
of the file. It never runs out of an array or of a text, and three faults that speak of the
decoding itself never come up: that an attribute of the class came before its header, that
the record was gone at the end, and that the decoding stopped although nobody had stopped it.

The first part is about positions, and each place where a decoder works with one was looked
at in `ClassFile.Proofs.Bounds`. What is left here are the slots of the pool while it is gone
through for references: they are in range because collecting a reference keeps the number of
slots. The second part is about the order in which a class is decoded. The header puts the
record in place, and nothing after it takes the record away.

Both parts rest on invariants that speak only of the number of slots and of whether there is
a record (`ClassFile.Decoder.frame`).
-/

namespace ClassFile

/-- What the invariants speak of: how many slots the pool has, and whether the header of the
class is known. -/
def Decoder.frame (s : Decoder) : Nat × Bool := (s.pool.size, s.record.isSome)

namespace Decode

variable {c : Context} {J : Nat × Bool → Prop} {α : Type}

/-- The step keeps what `J` says of the frame, and has no internal fault. -/
abbrev Proper (J : Nat × Bool → Prop) (m : Decode α) : Prop :=
  Keeps (fun s => J s.frame) (fun fault => fault.isInternal = false) m

namespace Proper

/-! ### References -/

/-- A step that leaves the frame as it is has none of the faults that are not meant for the
outside. -/
theorem modify {f : Decoder → Decoder} (h : ∀ s, (f s).frame = s.frame) :
    Proper J (modify f) :=
  Keeps.modify fun s hs => by rwa [h]

/-- The frame does not show what references were collected. -/
theorem of_ground {s t : Decoder} (h : t.ground = s.ground) (hs : J s.frame) : J t.frame := by
  obtain ⟨-, hrest⟩ := Prod.mk.inj h
  obtain ⟨hpool, hrecord⟩ := Prod.mk.inj hrest
  rwa [Decoder.frame, hpool, hrecord]

theorem tell (event : Event) : Proper J (tell c event) := Keeps.tell of_ground event

/-- A reference to a type cannot fail, whatever its package turns out to be. -/
theorem refer (type : TypeName) (access : Access) : Proper J (refer c type access) :=
  Keeps.refer of_ground type access

theorem expose (type : TypeName) (access : Access) : Proper J (expose c type access) :=
  Keeps.expose of_ground type access

theorem constant (index : UInt16) : Proper J (referClassConstant c index) := by
  refine .bind (fun s hs => ?_) fun name => ?_
  · change J ((s.pool.markReferred index).2.size, s.record.isSome)
    rwa [Pool.size_markReferred]
  · cases name with
    | some name => exact refer _ 0
    | none => exact .pure ()

theorem naming : Naming c c fun m _ => Proper J m where
  pure a := .pure a
  bind hm hf := .bind hm hf
  throw h := .throw h
  ask h := .ask h.outward
  named _ := tell _
  refer := refer

theorem pooled : Pooled c c fun m _ => Proper J m where
  toReferring := naming.referring
  constant := constant
  lookPool h := .look fun s => h s s (.refl _)

/-! ### Readings -/

/-- What fails in reading is a fault of the file: its end, a limit, or a malformed part. -/
theorem read {reader : Reader α} (h : Outward reader) : Proper J (read reader) :=
  Keeps.read (fun _ _ hs => hs) h

theorem u2 : Proper J Decode.u2 := read Outward.composed.u2

/-! ### The record -/

theorem updateMember (f : Member → Member) : Proper J (updateMember f) := by
  refine modify fun s => ?_
  cases s.last with
  | none => rfl
  | some last => exact Prod.ext rfl (Option.isSome_map ..)

section Recorded

variable (hJ : ∀ frame, J frame → frame.2 = true)
include hJ

/-- To look for the record succeeds where one is there, so its absence is no fault that can be
seen. -/
theorem record : Proper J record := by
  intro s hs
  obtain ⟨record, hrecord⟩ := Option.isSome_iff_exists.1 (hJ _ hs)
  rw [record_of_some hrecord]
  exact hs

theorem updateRecord (f : Record → Record) : Proper J (updateRecord f) := by
  refine .bind (record hJ) fun record => Keeps.modify fun s hs => ?_
  have hframe : s.frame = (s.pool.size, true) := Prod.ext rfl (hJ _ hs)
  rwa [hframe] at hs

/-- In the end the record is there, and is given out. It is the one place where a missing record
would be noticed. -/
theorem finish : Proper J finish := by
  intro s hs
  obtain ⟨record, hrecord⟩ := Option.isSome_iff_exists.1 (hJ _ hs)
  rw [finish_of_some hrecord]
  exact hs

/-- Nothing that the readers of attributes do takes the record away. -/
theorem elementary : Elementary c c fun m _ => Proper J m where
  toNaming := naming
  take n := read (.take n)
  within hm := .within (fun _ _ hs => hs) hm
  look h := .look fun s => h s s rfl
  tell _ := tell _
  expose := expose
  constant := constant
  attempt index access := .succeeds (naming.referDescriptor index access)
  call index := by
    dsimp only [handlers]
    split
    · exact .bind (.ask (Pool.Question.methodRef index).outward) fun _ => tell _
    · exact .pure ()
  updateRecord _ := updateRecord hJ _
  updateMember _ := updateMember _

/-- Nothing that is done after the header takes the record away. -/
theorem memberwise : Memberwise c c fun m _ => Proper J m where
  toLockstep := (elementary hJ).lockstep
  lookScene h := .look fun s => h s s rfl
  record := record hJ
  updateHeaded _ := updateRecord hJ _
  announce _ := tell _
  sign _ := updateMember _
  attend _ := modify fun _ => rfl

end Recorded

end Proper

/-! ### Slots -/

/-- A slot that is gone through for references is one of the pool. -/
theorem referPoolGuarded_eq (c : Context) :
    referPoolGuarded c = Guarded.sound (referPool c) := by
  funext s
  have hslots (slots : List Nat) (t : Decoder) (hsize : t.pool.size = s.pool.size)
      (hslots : ∀ slot ∈ slots, slot < s.pool.size) :
      slots.forM (referEntryGuarded c) t = Guarded.sound (slots.forM (referEntry c)) t := by
    induction slots generalizing t with
    | nil => rfl
    | cons slot slots ih =>
      have hfirst : (referEntryGuarded c slot >>= fun _ => slots.forM (referEntryGuarded c)) t =
          (Guarded.sound (referEntry c slot) >>= fun _ => slots.forM (referEntryGuarded c)) t := by
        change (referEntryGuarded c slot t).bind _ = _
        rw [referEntryGuarded, if_pos (by rw [hsize]; exact hslots slot List.mem_cons_self)]
        rfl
      change (referEntryGuarded c slot >>= fun _ => slots.forM (referEntryGuarded c)) t =
        Guarded.sound (referEntry c slot >>= fun _ => slots.forM (referEntry c)) t
      rw [hfirst]
      refine Guarded.sound_bind_congr fun _ u hu => ih u ?_ fun next hnext =>
        hslots next (List.mem_cons_of_mem slot hnext)
      have hkeeps : Proper (fun frame => frame.1 = s.pool.size) (referEntry c slot) :=
        Proper.pooled.referEntry slot
      have hsize' := hkeeps t hsize
      rwa [hu] at hsize'
  refine hslots _ s rfl fun slot hslot => ?_
  exact List.mem_range.1 (List.mem_of_mem_drop hslot)

end Decode

/-! ### Reading the pool -/

namespace Outward

/-- A reader of an entry has no other faults while the pool is filled. -/
theorem field {α : Type} {reader : Reader α} (h : Outward reader) :
    Outward (Pool.Filling.field reader) := by
  intro s fault t hrun
  rw [Pool.Filling.field] at hrun
  split at hrun
  · cases hrun
  · rename_i hread
    cases hrun
    exact h _ _ _ hread

theorem modify {σ : Type} (f : σ → σ) : Outward (modify f : EStateM Fault σ Unit) :=
  fun _ _ _ h => nomatch h

/-- The pool is filled with faults of the file only: entries that are too short, tags that there are
not, texts that are no texts. -/
theorem fill (room slot : Nat) : Outward (Pool.fill room slot) := by
  induction room using Nat.strongRecOn generalizing slot with
  | ind room ih =>
    cases room with
    | zero => exact pure ()
    | succ room =>
      rw [Pool.fill_succ]
      refine (field composed.u1).bind fun tag => ?_
      split
      · exact pure ()
      refine (field (composed.entry tag slot)).bind fun found => (modify _).bind fun _ => ?_
      exact ih _ (by have := found.width_pos; omega) _

theorem pool : Outward Pool.read := by
  refine (field composed.u2).bind fun count => ?_
  dsimp only
  split
  · exact (throw rfl).bind fun _ => (modify _).bind fun _ => fill _ 1
  · exact (modify _).bind fun _ => fill _ 1

end Outward

/-! ### The order of a decoding -/

namespace Decode

variable {c : Context} {J : Nat × Bool → Prop} {α : Type}

section Header

variable (hJ : ∀ frame, J frame)
include hJ

/-- Reading the pool changes nothing of the frame. -/
theorem Proper.readPool : Proper J readPool := by
  intro s _
  rw [Decode.readPool]
  cases hrun : Pool.read ⟨s.input, s.pool⟩ with
  | ok _ filled => exact hJ _
  | error fault filled => exact ⟨hJ _, Outward.pool _ _ _ hrun⟩

/-- A class that is opened gets a record. From here on a record is there. -/
theorem Proper.openClass (record : Record) : Proper J (openClass c record) := by
  refine .bind (Proper.modify fun _ => rfl) fun _ => .bind (Proper.refer _ _) fun _ => ?_
  exact Keeps.modify fun _ _ => hJ _

/-- Up to its name a class is read without a record, and no step asks for one. -/
theorem Proper.classHeader : Proper J (classHeader c) := by
  have hpooled : Pooled c c fun m _ => Proper J m := Proper.pooled
  have hmagic : Proper J checkMagic := by
    refine .bind (Proper.read Outward.composed.u4) fun found => ?_
    split
    · exact .throw rfl
    · exact .pure ()
  refine .bind hmagic fun _ => ?_
  refine .bind Proper.u2 fun minor => .bind Proper.u2 fun major => ?_
  refine .bind (Proper.tell _) fun _ => .bind (Proper.readPool hJ) fun _ => ?_
  refine .bind Proper.pooled.referPool fun _ => .look fun s => ?_
  refine .bind Proper.u2 fun access => .bind Proper.u2 fun index => ?_
  refine .bind (hpooled.classAt index) fun name => ?_
  exact .bind (Proper.openClass hJ _) fun _ => .pure _

end Header

/-- A class that is opened has a record, and so it will have one when attributes are read. -/
theorem openClass_yields (c : Context) (record : Record) :
    Yields (fun _ t => t.record.isSome = true) (openClass c record) := by
  refine .after fun _ => .after fun _ => ?_
  intro s a t h
  cases h
  rfl

/-- The header puts the record in place, before anything asks for it. -/
theorem classHeader_yields (c : Context) :
    Yields (fun _ t => t.record.isSome = true) (classHeader c) := by
  refine .after fun _ => .after fun minor => .after fun major => .after fun _ => ?_
  refine .after fun _ => .after fun _ => .after fun _ => .after fun access => .after fun index => ?_
  refine .after fun name => ?_
  intro s a u h
  obtain ⟨_, t, hopen, hlast⟩ := EStateM.ok_of_bind h
  cases hlast
  exact openClass_yields c _ s _ u hopen

/-- What follows the header: the class, if there is no listener or it admits the class. -/
def afterHeader (c : Context) (record : Record) (orphan : Bool) : Decode (Option Record) := do
  match c.listener with
  | none => return some (← classBody c orphan)
  | some listener =>
    tell c (.classStart record)
    let s ← get
    let admitted := listener.admits s.notes record s.session
    ending (if admitted then some <$> classBody c orphan else pure none) (Decoder.told c .classEnd)

/-- What follows the header depends on whether a listener admits the class. -/
theorem classFile_eq (c : Context) :
    classFile c = classHeader c >>= fun (record, orphan) => afterHeader c record orphan := rfl

/-- A class that is admitted is decoded after its start was told of, and then its end is. If
nobody listens then nothing is told of. -/
theorem afterHeader_ok {c : Context} {record found : Record} {orphan : Bool} {s t : Decoder}
    (h : afterHeader c record orphan s = .ok (some found) t) :
    ∃ u, classBody c orphan (s.told c (.classStart record)) = .ok found u ∧
      t = u.told c .classEnd := by
  have hsome {u v : Decoder} (hrun : (some <$> classBody c orphan) u = .ok (some found) v) :
      classBody c orphan u = .ok found v := by
    rw [map_eq_pure_bind] at hrun
    obtain ⟨_, _, hbody, hlast⟩ := EStateM.ok_of_bind hrun
    cases hlast
    exact hbody
  obtain ⟨namer, listener⟩ := c
  cases listener with
  | none =>
    obtain ⟨_, _, hbody, hlast⟩ := EStateM.ok_of_bind h
    cases hlast
    exact ⟨t, hbody, rfl⟩
  | some listener =>
    obtain ⟨_, _, htell, hrest⟩ := EStateM.ok_of_bind h
    cases htell
    obtain ⟨_, _, hget, hrest⟩ := EStateM.ok_of_bind hrest
    cases hget
    dsimp only at hrest
    rw [ending] at hrest
    split at hrest
    · rename_i result u hrun
      cases hrest
      split at hrun
      · exact ⟨u, hsome hrun, rfl⟩
      · cases hrun
    · cases hrest

/-- To tell a listener something changes nothing of what the decoder keeps for itself. -/
theorem told_frame (event : Event) (s : Decoder) : (s.told c event).frame = s.frame := by
  rw [Decoder.told]
  cases c.listener <;> rfl

/-- What follows the header finds the record in place, and leaves it there. -/
theorem Proper.afterHeader (hJ : ∀ frame, J frame → frame.2 = true) (record : Record)
    (orphan : Bool) : Proper J (afterHeader c record orphan) := by
  have hbody : Proper J (some <$> classBody c orphan) :=
    .bind ((Proper.memberwise hJ).classBody (Proper.finish hJ) orphan) fun _ => .pure _
  rw [Decode.afterHeader]
  split
  · exact .bind ((Proper.memberwise hJ).classBody (Proper.finish hJ) orphan) fun _ => .pure _
  · refine .bind (Proper.tell _) fun _ => .look fun s => ?_
    refine .ending ?_ fun s hs => by rwa [told_frame]
    split
    · exact hbody
    · exact .pure none

/-- **No fault of a class file is internal.** Whatever the bytes are, what keeps them from being
decoded is said of the file and not of the decoder. -/
theorem classFile_outward (c : Context) : Outward (classFile c) := by
  intro s fault u h
  have hheader : Proper (fun _ => True) (classHeader c) := Proper.classHeader (fun _ => trivial)
  rw [classFile_eq] at h
  obtain hrun | ⟨⟨record, orphan⟩, t, hrun, hafter⟩ := EStateM.error_of_bind h
  · have hproper := hheader s trivial
    rw [hrun] at hproper
    exact hproper.2
  · have hrest : Proper (fun frame => frame.2 = true) (afterHeader c record orphan) :=
      Proper.afterHeader (fun _ h => h) record orphan
    have hproper := hrest t (classHeader_yields c s _ t hrun)
    rw [show afterHeader c record orphan t = .error fault u from hafter] at hproper
    exact hproper.2

/-- **A class file is decoded to nothing only if the listener does not admit the class.** -/
theorem classFile_yields (c : Context) :
    Yields (fun result _ => result = none → ∃ listener notes record session,
      c.listener = some listener ∧ listener.admits notes record session = false)
      (classFile c) := by
  have hsome (orphan : Bool) : Yields (fun result _ => result ≠ none)
      (some <$> classBody c orphan) :=
    .after fun _ => .pure fun _ => nofun
  rw [classFile_eq]
  refine .after fun (record, orphan) => ?_
  dsimp only
  rw [afterHeader]
  split
  · exact .after fun _ => .pure fun _ => nofun
  · rename_i listener hlistener
    refine .after fun _ s result t h hnone => ?_
    refine ⟨listener, s.notes, record, s.session, hlistener, ?_⟩
    refine Bool.eq_false_iff.2 fun hadmits => ?_
    change ending (if listener.admits s.notes record s.session then some <$> classBody c orphan
      else pure none) (Decoder.told c .classEnd) s = _ at h
    rw [if_pos hadmits, ending] at h
    cases hrun : (some <$> classBody c orphan) s with
    | error fault u =>
      rw [hrun] at h
      cases h
    | ok found u =>
      rw [hrun] at h
      cases h
      exact hsome orphan s _ u hrun hnone

/-- Wherever a decoding under a context works with positions or with numbers of 64 bits, it
comes to the same as without bounds, and so it does not crash. -/
structure InBounds (c : Context) : Prop where
  /-- Bytes are cut out of the file, and numbers are made of bytes that are there. -/
  take (n : Nat) : Cursor.Tracks (Cursor.take n) (Input.take n)
  number (n : Nat) : Cursor.Tracks (Cursor.number n) (Bytes.number <$> Input.take n)
  text (bytes : Bytes) :
    ModifiedUtf8.unitsFrom bytes 0 = Guarded.answer (ModifiedUtf8.units bytes)
  /-- Entries are put into slots of the pool, and taken out of them. -/
  pool : Pool.readGuarded = Guarded.sound Pool.read
  references : referPoolGuarded c = Guarded.sound (referPool c)
  /-- Names are cut out of texts between characters. -/
  signature (text : String) : Signature.scanByPosition text = some (Signature.scan text)
  arguments (text : String) : Signature.argumentsByPosition text = some (Signature.arguments text)
  package (type : TypeName) : Package.ofTypeByPosition type = some (.ofType type)
  /-- The padding and the tables of switches have sizes of 64 bits. -/
  code (targets : Targets) (code : Bytes) (h : code.length < UInt64.size) :
    (handlers c).walkBehind targets none ⟨code, 0⟩ =
      Guarded.sound ((handlers c).walk targets code)

/-- **All places where a decoding could be in trouble** are reached in states in which it is not:
the slots that are asked for exist, and so does the record. -/
theorem inBounds (c : Context) : InBounds c where
  take := .take
  number n := by
    have h := Cursor.Tracks.number n id
    rwa [show (do return id (← Cursor.number n)) = Cursor.number n from bind_pure _] at h
  text bytes := ModifiedUtf8.unitsFrom_eq bytes 0
  pool := Pool.readGuarded_eq
  references := referPoolGuarded_eq c
  signature := Signature.scanByPosition_eq_some_scan
  arguments := Signature.argumentsByPosition_eq_some_arguments
  package := Package.ofTypeByPosition_eq
  code targets code h := by
    funext s
    exact (handlers c).walkBehind_eq targets code.length none ⟨Nat.zero_le _, h⟩ (Nat.le_refl _) s

end Decode

namespace Session

/-- What a listener that admits a class gets for it is what the decoding of the class file came
to. -/
theorem classFile_of_run {options : Options} {listener : Option Listener} {bytes : Bytes}
    {session : Session} {record : Record}
    (h : (session.run options listener bytes).outcome = .ok (some record)) :
    ∃ s, Decode.classFile ⟨options.namer, listener⟩ (session.decoder options listener bytes) =
      .ok (some record) s ∧ (session.run options listener bytes).notes = s.notes.toList := by
  rw [run] at h ⊢
  cases hrun : Decode.classFile ⟨options.namer, listener⟩
      (session.decoder options listener bytes) with
  | error fault s =>
    rw [hrun] at h
    cases h
  | ok outcome s =>
    rw [hrun] at h
    cases h
    exact ⟨s, rfl, rfl⟩

/-- What comes of a run, whoever listens: a record, or nothing because the listener did not admit
the class, or a fault of the file. -/
theorem run_ends (options : Options) (listener : Option Listener) (bytes : Bytes)
    (session : Session) :
    match (session.run options listener bytes).outcome with
    | .ok (some _) => True
    | .ok none => ∃ l notes record session,
      listener = some l ∧ l.admits notes record session = false
    | .error fault => fault.isInternal = false := by
  let context : Context := ⟨options.namer, listener⟩
  rw [run]
  cases hfile : Decode.classFile context (session.decoder options listener bytes) with
  | error fault s => exact Decode.classFile_outward context _ _ _ hfile
  | ok result s =>
    cases result with
    | some record => trivial
    | none => exact Decode.classFile_yields context _ _ _ hfile rfl

/-- **Decoding is safe**, for every byte string, with every listener and every option: no
position runs out of range, and what comes of it is a record, a class that the listener does
not admit, or a fault of the file. -/
theorem run_safe (options : Options) (listener : Option Listener) (bytes : Bytes)
    (session : Session) :
    Decode.InBounds ⟨options.namer, listener⟩ ∧
      (match (session.run options listener bytes).outcome with
        | .ok (some _) => True
        | .ok none => ∃ l notes record session,
          listener = some l ∧ l.admits notes record session = false
        | .error fault => fault.isInternal = false) ∧
      ∀ fault, (session.decode options bytes).1 = .error fault → fault.isInternal = false := by
  refine ⟨Decode.inBounds _, run_ends options listener bytes session, fun fault h => ?_⟩
  -- a record is wanted of a decoding, and without a listener it is had unless there is a fault
  have hnone := run_ends options none bytes session
  rw [decode] at h
  cases houtcome : (session.run options none bytes).outcome with
  | error other =>
    rw [houtcome] at h hnone
    cases h
    exact hnone
  | ok result =>
    rw [houtcome] at h hnone
    cases result with
    | some record => exact nomatch h
    | none =>
      obtain ⟨l, _, _, _, hl, -⟩ := hnone
      exact nomatch hl

end Session

end ClassFile
