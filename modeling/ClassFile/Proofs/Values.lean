import Mathlib.Data.List.Induction
import ClassFile.Layout.Values
import ClassFile.Proofs.Lists
import ClassFile.Proofs.Reading

/-!
# Values of elements are read as they were written

A step *reads* bytes to an outcome if it comes to this outcome wherever the bytes stand in front of
the input of a decoder with the given pool, once the header of the class is known
(`ClassFile.Decode.Reads`). If the outcome is a value, the step ends just behind the bytes; what
follows them does not matter, and neither does who listens. The outcome may also be a fault, and
then nothing is said of where it came up.

What is written of a tree of values is read to the value that the tree stands for, if the tree is
not too deep, and to the one fault that tells of that otherwise (`ClassFile.Decode.Reads.value`). So
the outcome of a list of values depends on the deepest of them only: those in front of the first one
that is too deep have been read by then.
-/

namespace ClassFile

/-! ### Names that come again -/

namespace Annotation

/-- Elements keep different names when one is put in: it replaces the one of its name, or comes
behind all of them. -/
theorem nodup_map_fst_putElement {name : String} {value : Value} {found : List (String × Value)}
    (h : (found.map Prod.fst).Nodup) : ((putElement name value found).map Prod.fst).Nodup := by
  rw [map_fst_putElement]
  split
  · exact h
  · rename_i hnew
    refine List.nodup_append.2 ⟨h, List.pairwise_singleton _ name, ?_⟩
    rintro other hother last hlast rfl
    exact hnew (List.mem_singleton.1 hlast ▸ hother)

/-- An element is the one that was put, or was there and has another name. -/
theorem mem_putElement {name : String} {value : Value} {found : List (String × Value)}
    (hnodup : (found.map Prod.fst).Nodup) {element : String × Value}
    (h : element ∈ putElement name value found) :
    element = (name, value) ∨ element ∈ found ∧ element.1 ≠ name := by
  induction found with
  | nil => exact .inl (List.mem_singleton.1 h)
  | cons other found ih =>
    obtain ⟨hother, hnodup⟩ := List.nodup_cons.1 hnodup
    rw [putElement] at h
    split at h
    · rename_i hname
      rcases List.mem_cons.1 h with hput | hmem
      · exact .inl hput
      · refine .inr ⟨List.mem_cons_of_mem _ hmem, fun hsame => hother ?_⟩
        rw [hname, ← hsame]
        exact List.mem_map_of_mem hmem
    · rename_i hname
      rcases List.mem_cons.1 h with rfl | hmem
      · exact .inr ⟨List.mem_cons_self, hname⟩
      · exact (ih hnodup hmem).imp_right (And.imp_left (List.mem_cons_of_mem _))

/-- The names of elements that are put in stand where each name came first. -/
theorem map_fst_foldl_putElement (given found : List (String × Value)) :
    (given.foldl (fun found element => putElement element.1 element.2 found) found).map Prod.fst =
      (given.map Prod.fst).foldl (fun known name => if name ∈ known then known else known ++ [name])
        (found.map Prod.fst) := by
  induction given generalizing found with
  | nil => rfl
  | cons element given ih =>
    rw [List.foldl_cons, ih, map_fst_putElement, List.map_cons, List.foldl_cons]

/-- The names are different, and each has the last of its values. -/
theorem last_of_mem_foldl_putElement (given : List (String × Value)) :
    let settled := given.foldl (fun found element => putElement element.1 element.2 found) []
    (settled.map Prod.fst).Nodup ∧ ∀ element ∈ settled,
      given.reverse.find? (fun other => other.1 = element.1) = some element := by
  induction given using List.reverseRecOn with
  | nil => exact ⟨List.nodup_nil, fun _ h => absurd h List.not_mem_nil⟩
  | append_singleton given last ih =>
    obtain ⟨hnodup, hlast⟩ := ih
    simp only [List.foldl_append, List.foldl_cons, List.foldl_nil]
    refine ⟨nodup_map_fst_putElement hnodup, fun element helement => ?_⟩
    rw [List.reverse_append, List.reverse_singleton, List.singleton_append]
    rcases mem_putElement hnodup helement with rfl | ⟨hmem, hne⟩
    · exact List.find?_cons_of_pos (by simp)
    · rw [List.find?_cons_of_neg (by simpa using hne.symm)]
      exact hlast element hmem

/-- Elements that are put one after the other settle: each name stands for the value that it was put
with last. -/
theorem foldl_putElement (given : List (String × Value)) :
    given.foldl (fun found element => putElement element.1 element.2 found) [] = settle given := by
  obtain ⟨-, hlast⟩ := last_of_mem_foldl_putElement given
  have hnames := map_fst_foldl_putElement given []
  rw [List.map_nil, List.foldl_putNew, List.nil_append,
    List.filter_eq_self.2 fun _ _ => by simp] at hnames
  generalize given.foldl (fun found element => putElement element.1 element.2 found) [] =
    settled at *
  rw [settle, ← hnames, List.filterMap_map, eq_comm]
  calc settled.filterMap _ = settled.filterMap some := List.filterMap_congr hlast
    _ = settled := List.filterMap_some

end Annotation

/-! ### What bytes are read to -/

/-- The decoder faces this input, with this pool, and the header of the class is known. -/
structure Decoder.Faces (pool : Pool) (input : Input) (s : Decoder) : Prop where
  pool_eq : s.pool = pool
  input_eq : s.input = input
  isSome_record : s.record.isSome = true

/-- What does not touch the ground faces the same bytes with the same pool. -/
theorem Decoder.Faces.of_ground {pool : Pool} {input : Input} {s t : Decoder}
    (h : t.ground = s.ground) (hs : s.Faces pool input) : t.Faces pool input := by
  obtain ⟨hinput, hrest⟩ := Prod.mk.inj h
  obtain ⟨hpool, hrecord⟩ := Prod.mk.inj hrest
  exact ⟨hpool.trans hs.pool_eq, hinput.trans hs.input_eq, hrecord ▸ hs.isSome_record⟩

namespace Decode

variable {α β : Type} {c : Context} {pool : Pool} {bytes bytes' : Bytes}

/-- The result is this outcome; if it is a value, the decoder that goes on is as it should be. -/
def EndsWith (outcome : Except Fault α) (there : Decoder → Prop)
    (result : EStateM.Result Fault Decoder α) : Prop :=
  match outcome with
  | .ok a => ∃ t, result = .ok a t ∧ there t
  | .error fault => ∃ t, result = .error fault t

/-- Wherever the bytes stand in front of the input of a decoder with this pool, the step comes to
this outcome; if it is a value, just behind the bytes. -/
def Reads (pool : Pool) (bytes : Bytes) (outcome : Except Fault α) (m : Decode α) : Prop :=
  ∀ offset rest s, s.Faces pool ⟨offset, bytes ++ rest⟩ →
    EndsWith outcome (Decoder.Faces pool ⟨offset + bytes.length, rest⟩) (m s)

namespace Reads

theorem pure (a : α) : Reads pool [] (.ok a) (Pure.pure a) :=
  fun _ _ s hs => ⟨s, rfl, hs⟩

theorem throw (fault : Fault) :
    Reads pool bytes (.error fault) (MonadExcept.throw fault : Decode α) :=
  fun _ _ s _ => ⟨s, rfl⟩

/-- What follows a step that came to a value stands behind its bytes. -/
theorem bind {m : Decode α} {f : α → Decode β} {a : α} {outcome : Except Fault β}
    (hm : Reads pool bytes (.ok a) m) (hf : Reads pool bytes' outcome (f a)) :
    Reads pool (bytes ++ bytes') outcome (m >>= f) := by
  intro offset rest s hs
  rw [List.append_assoc] at hs
  obtain ⟨t, hrun, ht⟩ := hm offset (bytes' ++ rest) s hs
  rw [EStateM.bind_of_ok hrun, List.length_append, ← Nat.add_assoc]
  exact hf _ rest t ht

theorem bind_error {m : Decode α} {f : α → Decode β} {fault : Fault}
    (hm : Reads pool bytes (.error fault) m) (bytes' : Bytes) :
    Reads pool (bytes ++ bytes') (.error fault) (m >>= f) := by
  intro offset rest s hs
  rw [List.append_assoc] at hs
  obtain ⟨t, hrun⟩ := hm offset (bytes' ++ rest) s hs
  exact ⟨t, EStateM.bind_of_error hrun⟩

/-- Nothing more is read after the last part. -/
theorem last {m : Decode α} {f : α → Decode β} {a : α} {outcome : Except Fault β}
    (hm : Reads pool bytes (.ok a) m) (hf : Reads pool [] outcome (f a)) :
    Reads pool bytes outcome (m >>= f) := by
  have hall := hm.bind hf
  rwa [List.append_nil] at hall

/-- A reader that gives a value for some bytes reads them, wherever in the file they stand. -/
theorem read {reader : Reader α} {a : α} (h : ∀ offset, reader.Gives offset bytes a) :
    Reads pool bytes (.ok a) (Decode.read reader) := by
  intro offset rest s hs
  refine ⟨{ s with input := ⟨offset + bytes.length, rest⟩ }, ?_, hs.pool_eq, rfl, hs.isSome_record⟩
  rw [Decode.read, hs.input_eq, h offset rest]

theorem u1 (byte : UInt8) : Reads pool (Form.u1.encode byte) (.ok byte) (Decode.read Input.u1) := by
  have hbyte : Form.u1.encode byte = [byte] := congrArg (fun last => [last]) UInt8.ofNat_toNat
  exact hbyte ▸ read fun _ => .u1 byte

theorem u2 (n : UInt16) : Reads pool (Form.u2.encode n) (.ok n) Decode.u2 :=
  read fun _ => .u2 n

theorem count {n : Nat} (h : Form.count.Fits n) :
    Reads pool (Form.count.encode n) (.ok n) Decode.count := by
  have hread : Reads pool (Form.count.encode n) (.ok (UInt16.ofNat n).toNat) Decode.count :=
    (read fun _ => .count h).last (pure _)
  rwa [UInt16.toNat_ofNat_of_lt' h] at hread

/-- What the pool says is found without any byte being read. -/
theorem ask {question : Pool → Except Fault α} {a : α} (h : question pool = .ok a) :
    Reads pool [] (.ok a) (Decode.ask question) := by
  intro offset rest s hs
  refine ⟨s, ?_, hs⟩
  rw [Decode.ask, hs.pool_eq, h]

theorem utf8 {index : UInt16} {text : String} (h : pool.utf8 index = .ok text) :
    Reads pool [] (.ok text) (Decode.utf8 index) :=
  ask h

/-- A step that leaves everything as it is and cannot fail. -/
theorem of_keeps {m : Decode Unit}
    (h : ∀ input, Keeps (Decoder.Faces pool input) (fun _ => False) m) :
    Reads pool [] (.ok ()) m := by
  intro offset rest s hs
  have hkeeps := h _ s hs
  cases hrun : m s with
  | ok _ t =>
    rw [hrun] at hkeeps
    exact ⟨t, rfl, hkeeps⟩
  | error =>
    rw [hrun] at hkeeps
    exact hkeeps.2.elim

/-! ### Annotations and values, step by step -/

/-- An annotation that is noted leaves the bytes where they are. -/
theorem noteAnnotation (type : TypeName) (retention : Retention) :
    Reads pool [] (.ok ()) (Decode.noteAnnotation type retention) := by
  intro offset rest s hs
  obtain ⟨record, hrecord⟩ := Option.isSome_iff_exists.1 hs.isSome_record
  exact ⟨_, updateRecord_of_some hrecord _, hs.pool_eq, hs.input_eq, rfl⟩

/-- A descriptor that is well formed is referred to, and nothing is read from the input for it. -/
theorem referDescriptor {index : UInt16} {text : String} (hutf8 : pool.utf8 index = .ok text)
    (hscan : (Signature.scan text).fault = none) (access : Access) :
    Reads pool [] (.ok ()) (Decode.referDescriptor c index access) := by
  refine (utf8 hutf8).bind ?_
  have hnames : Reads pool [] (.ok ()) ((Signature.scan text).names.forM (mention c access)) := by
    generalize (Signature.scan text).names = names
    induction names with
    | nil => exact pure ()
    | cons name names ih =>
      exact (of_keeps fun _ => Keeps.mention Decoder.Faces.of_ground access name).bind ih
  rw [Decode.referText, hscan]
  exact hnames.bind (pure ())

/-- Whoever listens, the type that is described is found. -/
theorem annotationType {retention : Retention} {index : UInt16} {type : TypeName}
    (h : pool.Describes retention index type) (access : Access) :
    Reads pool [] (.ok type) (Decode.annotationType c retention access index) := by
  obtain ⟨text, hutf8, rfl, hscan⟩ := h
  refine (utf8 hutf8).bind ?_
  by_cases hruntime : retention = .runtime
  · rw [if_pos hruntime]
    refine (referDescriptor hutf8 (hscan hruntime) 0).bind ?_
    exact (of_keeps fun _ => Keeps.expose Decoder.Faces.of_ground _ access).bind (pure _)
  · rw [if_neg hruntime]
    exact pure _

/-- A number that is behind an index is read from the pool and not from the bytes. -/
theorem intConstant {index : UInt16} {n : Int32} (h : pool.entry index = .ok (.integer n)) :
    Reads pool [] (.ok n) (Decode.intConstant index) :=
  (ask h).bind (pure n)

end Reads

/-- The value, or the fault that tells that it is too deep. -/
def bounded (levels depth : Nat) (a : α) : Except Fault α :=
  if depth ≤ levels then .ok a else .error .valueNesting

/-- Within the number of levels that may be entered there is a value. -/
theorem bounded_of_le {levels depth : Nat} (h : depth ≤ levels) (a : α) :
    bounded levels depth a = .ok a :=
  if_pos h

/-- Beyond it there is the fault of a value that is nested too deep. -/
theorem bounded_of_lt {levels depth : Nat} (h : levels < depth) (a : α) :
    bounded levels depth a = .error .valueNesting :=
  if_neg (Nat.not_le.2 h)

/-- One level more for both is no difference. This is the step of the induction over levels. -/
theorem bounded_succ (levels depth : Nat) (a : α) :
    bounded (levels + 1) (depth + 1) a = bounded levels depth a := by
  simp only [bounded, Nat.add_le_add_iff_right]

namespace Reads

variable {levels depth depth' : Nat}

/-- Of two steps the deeper one decides how many levels are entered. -/
theorem bind_bounded {m : Decode α} {f : α → Decode β} {a : α} {b : β}
    (hm : Reads pool bytes (bounded levels depth a) m)
    (hf : Reads pool bytes' (bounded levels depth' b) (f a)) :
    Reads pool (bytes ++ bytes') (bounded levels (max depth depth') b) (m >>= f) := by
  -- if the first step fails, the second one is not taken, however deep it would go
  rcases Nat.lt_or_ge levels depth with hdeep | hshallow
  · rw [bounded_of_lt hdeep] at hm
    rw [bounded_of_lt (Nat.lt_of_lt_of_le hdeep (Nat.le_max_left _ _))]
    exact hm.bind_error bytes'
  · rw [bounded_of_le hshallow] at hm
    have hmax : bounded levels (max depth depth') b = bounded levels depth' b := by
      simp only [bounded, Nat.max_le, hshallow, true_and]
    exact hmax ▸ hm.bind hf

/-- What is made of a value is made of it within the bound, and beyond the bound the fault stays. -/
theorem map_bounded {m : Decode α} {a : α} (hm : Reads pool bytes (bounded levels depth a) m)
    (g : α → β) : Reads pool bytes (bounded levels depth (g a)) (do return g (← m)) := by
  have hlast : Reads pool [] (bounded levels 0 (g a)) (Pure.pure (g a)) := by
    rw [bounded_of_le (Nat.zero_le levels)]
    exact pure (g a)
  have hall : Reads pool (bytes ++ []) (bounded levels (max depth 0) (g a)) (do return g (← m)) :=
    hm.bind_bounded hlast
  rwa [List.append_nil, Nat.max_zero] at hall

variable {form : Form RawValue} {m : Decode Value}

/-- A list of values is as deep as the deepest of them. -/
theorem listOf {raws : List RawValue} {values : List Value}
    (h : List.Forall₂ (fun raw value =>
      Reads pool (form.encode raw) (bounded levels (raw.depth + 1) value) m) raws values) :
    Reads pool (raws.flatMap form.encode) (bounded levels (RawValue.depthOfValues raws) values)
      (Decode.listOf raws.length m) := by
  induction h with
  | nil => exact (bounded_of_le (Nat.zero_le levels) _).symm ▸ pure []
  | cons hvalue _ ih =>
    rw [List.flatMap_cons, RawValue.depthOfValues]
    exact hvalue.bind_bounded (ih.map_bounded _)

/-- The values of an annotation are put in place one after the other. -/
theorem elements {raws : List (UInt16 × RawValue)} {given : List (String × Value)}
    (hnames : List.Forall₂ (fun raw element => pool.utf8 raw.1 = .ok element.1) raws given)
    (h : List.Forall₂ (fun raw element =>
      Reads pool (form.encode raw.2) (bounded levels (raw.2.depth + 1) element.2) m) raws given)
    (found : List (String × Value)) :
    Reads pool (raws.flatMap (Form.u2.andThen fun _ => form).encode)
      (bounded levels (RawValue.depthOfElements raws)
        (given.foldl (fun found element => Annotation.putElement element.1 element.2 found) found))
      (Decode.elements m raws.length found) := by
  induction h generalizing found with
  | nil => exact (bounded_of_le (Nat.zero_le levels) _).symm ▸ pure found
  | @cons raw element raws given hvalue _ ih =>
    obtain ⟨hname, hnames⟩ := List.forall₂_cons.1 hnames
    rw [List.flatMap_cons, Form.andThen, List.append_assoc]
    refine (u2 raw.1).bind ((utf8 hname).bind ?_)
    exact hvalue.bind_bounded (ih hnames _)

variable {site : Site} {retention : Retention} {access : Access}

/-- An annotation is read as it was written: its type, the number of its elements, and each of them
with its name. Where a value in it is too deep the fault is that of the annotation. -/
theorem annotation {raw : RawAnnotation} {type : TypeName} {given : List (String × Value)}
    (htype : pool.Describes retention raw.type type) (hcount : raw.elements.length < UInt16.size)
    (hnames : List.Forall₂ (fun raw element => pool.utf8 raw.1 = .ok element.1) raw.elements given)
    (h : List.Forall₂ (fun raw element =>
      Reads pool (form.encode raw.2) (bounded levels (raw.2.depth + 1) element.2) m)
      raw.elements given) :
    Reads pool (form.annotation.encode raw)
      (bounded levels (RawValue.depthOfElements raw.elements)
        ⟨type, retention, site, Annotation.settle given⟩)
      (Decode.annotation c m site retention access) := by
  have hput := elements hnames h []
  have hsettled := Annotation.foldl_putElement given
  rw [hsettled] at hput
  have ⟨text, hutf8, htext, _⟩ := htype
  subst htext
  refine (u2 raw.type).bind ((utf8 hutf8).bind ((Reads.noteAnnotation _ retention).bind ?_))
  exact (annotationType htype access).bind ((count hcount).bind (hput.map_bounded _))

/-- **A value is read as it was written**, if it is not too deep for the levels that may be
entered. -/
theorem value (levels : Nat) {raw : RawValue} {found : Value}
    (h : raw.StandsFor pool site retention found) :
    Reads pool (RawValue.wholeForm.encode raw) (bounded levels (raw.depth + 1) found)
      (Decode.value c site retention access levels) := by
  -- on the levels, as the step recurs; where none is left, every value is too deep
  induction levels generalizing raw found with
  | zero => exact throw .valueNesting
  | succ levels ih =>
    rw [Decode.value, RawValue.encode_wholeForm, bounded_succ]
    refine (u1 raw.tag).bind ?_
    cases h with
    | @constant tag index entry _ hentry hvalue =>
      rw [RawValue.depth, bounded_of_le (Nat.zero_le levels)]
      dsimp only [RawValue.tag, RawValue.tail]
      generalize Char.ofNat tag.toNat = letter at hvalue
      unfold RawValue.ofEntry at hvalue
      split at hvalue <;> cases hvalue
      -- the five kinds of integers, and then the constants that have an entry of their own
      · exact (u2 index).last ((intConstant hentry).bind (pure _))
      · exact (u2 index).last ((intConstant hentry).bind (pure _))
      · exact (u2 index).last ((intConstant hentry).bind (pure _))
      · exact (u2 index).last ((intConstant hentry).bind (pure _))
      · exact (u2 index).last ((intConstant hentry).bind (pure _))
      · exact (u2 index).last ((ask hentry).bind (pure _))
      · exact (u2 index).last ((ask hentry).bind (pure _))
      · exact (u2 index).last ((ask hentry).bind (pure _))
      · refine (u2 index).last ((utf8 ?_).bind (pure _))
        rw [Pool.utf8, hentry]
        rfl
    | @enumConstant index nameIndex type name htype hname =>
      rw [RawValue.depth, bounded_of_le (Nat.zero_le levels)]
      refine (u2 index).bind ((annotationType htype access).bind ?_)
      exact (u2 nameIndex).last ((utf8 hname).bind (pure _))
    | @classLiteral index type htype =>
      rw [RawValue.depth, bounded_of_le (Nat.zero_le levels)]
      exact (u2 index).last ((annotationType htype access).bind (pure _))
    | @nested index type elements given htype hcount hnames helements =>
      rw [RawValue.depth]
      have hannotation : Reads pool (Form.encode RawAnnotation.wholeForm ⟨index, elements⟩)
          (bounded levels (RawValue.depthOfElements elements)
            ⟨type, retention, site, Annotation.settle given⟩)
          (Decode.annotation c (Decode.value c site retention access levels) site retention
            access) := annotation htype hcount hnames (helements.imp fun _ _ h => ih h)
      exact hannotation.map_bounded Annotation.toValue
    | @array raws values hcount hvalues =>
      rw [RawValue.depth]
      exact (count hcount).bind ((listOf (hvalues.imp fun _ _ h => ih h)).map_bounded _)

/-- A value that stands by itself may be as deep as there are levels, and one level more is too
deep. -/
theorem outerValue {raw : RawValue} {found : Value} (h : raw.StandsFor pool site retention found) :
    Reads pool (RawValue.wholeForm.encode raw) (bounded (nestingLimit + 1) (raw.depth + 1) found)
      (Decode.outerValue c site retention access) :=
  value (nestingLimit + 1) h

/-- The same of an annotation that stands by itself. -/
theorem outerAnnotation {raw : RawAnnotation} {found : Annotation}
    (h : raw.StandsFor pool site retention found) :
    Reads pool (Form.encode RawAnnotation.wholeForm raw)
      (bounded (nestingLimit + 1) (RawValue.depthOfElements raw.elements) found)
      (Decode.outerAnnotation c site retention access) := by
  obtain ⟨type, retention', site', elements⟩ := found
  unfold RawAnnotation.StandsFor Annotation.toValue at h
  cases h with
  | nested htype hcount hnames helements =>
    exact annotation htype hcount hnames (helements.imp fun _ _ h => outerValue h)

/-- What is read of bytes in front of the input. -/
theorem taken {m : Decode α} {a : α} {s : Decoder}
    (h : Reads s.pool bytes (bounded levels depth a) m) (hrecord : s.record.isSome = true)
    {rest : Bytes} (hinput : s.input.rest = bytes ++ rest) :
    (depth ≤ levels →
      ∃ t, m s = .ok a t ∧ t.input = ⟨s.input.offset + bytes.length, rest⟩) ∧
    (levels < depth → ∃ t, m s = .error .valueNesting t) := by
  have hall := h s.input.offset rest s ⟨rfl, by rw [← hinput], hrecord⟩
  constructor
  · intro hshallow
    rw [bounded_of_le hshallow] at hall
    obtain ⟨t, hrun, ht⟩ := hall
    exact ⟨t, hrun, ht.input_eq⟩
  · intro hdeep
    rwa [bounded_of_lt hdeep] at hall

end Reads

/-- **Values are read as they were written.** Once the header of a class is known, what was written
of a value is read to the value that it stands for by the pool, whatever stands behind it and
whoever listens, and just what was written is taken from the input, if there are no more than 255
arrays and annotations around any value inside. If there are more, the decoding fails for that
reason. The same holds of an annotation, in which a name that comes again keeps its first place and
its last value. -/
theorem outerValue_written (c : Context) (site : Site) (retention : Retention) (access : Access)
    {s : Decoder} (hrecord : s.record.isSome = true) :
    (∀ (raw : RawValue) (found : Value) (rest : Bytes), raw.StandsFor s.pool site retention found →
      s.input.rest = RawValue.wholeForm.encode raw ++ rest →
      (raw.depth ≤ nestingLimit → ∃ t, outerValue c site retention access s = .ok found t ∧
        t.input = ⟨s.input.offset + (RawValue.wholeForm.encode raw).length, rest⟩) ∧
      (nestingLimit < raw.depth →
        ∃ t, outerValue c site retention access s = .error .valueNesting t)) ∧
    (∀ (raw : RawAnnotation) (found : Annotation) (rest : Bytes),
      raw.StandsFor s.pool site retention found →
      s.input.rest = RawAnnotation.wholeForm.encode raw ++ rest →
      ((∀ element ∈ raw.elements, element.2.depth ≤ nestingLimit) →
        ∃ t, outerAnnotation c site retention access s = .ok found t ∧
          t.input = ⟨s.input.offset + (Form.encode RawAnnotation.wholeForm raw).length, rest⟩) ∧
      ((∃ element ∈ raw.elements, nestingLimit < element.2.depth) →
        ∃ t, outerAnnotation c site retention access s = .error .valueNesting t)) ∧
    Fault.valueNesting.kind = .limit := by
  refine ⟨fun raw found rest hstands hinput => ?_, fun raw found rest hstands hinput => ?_, rfl⟩
  · obtain ⟨hok, herror⟩ := (Reads.outerValue hstands).taken hrecord hinput
    exact ⟨fun h => hok (Nat.succ_le_succ h), fun h => herror (Nat.succ_lt_succ h)⟩
  · obtain ⟨hok, herror⟩ := (Reads.outerAnnotation hstands).taken hrecord hinput
    refine ⟨fun h => hok (RawValue.depthOfElements_le_iff.2 fun element hmem => ?_), ?_⟩
    · exact Nat.lt_succ_of_le (h element hmem)
    · rintro ⟨element, hmem, hdeep⟩
      refine herror (Nat.not_le.1 fun hle => ?_)
      exact absurd (RawValue.depthOfElements_le_iff.1 hle element hmem) (Nat.not_lt.2 hdeep)

/-- A decoder in front of bytes, with a pool that has a descriptor, a name and two numbers. -/
def inFront (bytes : Bytes) : Decoder where
  input := .ofBytes bytes
  pool := ⟨#[.unused, .utf8 "LA;", .utf8 "x", .integer 7, .integer 0]⟩
  session := {}
  record := some (.header ⟨"B"⟩ 52 0 1)
  walking := false

theorem rest_inFront (bytes : Bytes) : (inFront bytes).input.rest = bytes := rfl

/-- Arrays inside of each other. -/
def tower : Nat → RawValue × Value
  | 0 => (.array [], .array [])
  | n + 1 => (.array [(tower n).1], .array [(tower n).2])

/-- The value of so many levels is that deep. -/
theorem depth_tower (n : Nat) : (tower n).1.depth = n := by
  induction n with
  | zero => rfl
  | succ n ih =>
    rw [tower, RawValue.depth, RawValue.depthOfValues, RawValue.depthOfValues, ih, Nat.max_zero]

/-- And it is read as the value of as many levels, for there is nothing in it but levels. -/
theorem standsFor_tower (pool : Pool) (site : Site) (retention : Retention) (n : Nat) :
    (tower n).1.StandsFor pool site retention (tower n).2 := by
  induction n with
  | zero => exact .array (show 0 < UInt16.size by decide) .nil
  | succ n ih => exact .array (show 1 < UInt16.size by decide) (.cons ih .nil)

/-- An annotation that gives one name a number and then an array, with a byte behind it; and an
array with 256 arrays around the innermost. -/
theorem outerValue_written_of_nested :
    let c : Context := ⟨.exact, some .passive⟩
    let raw := RawValue.nested 1 [(2, .constant 73 3), (2, .array [.constant 90 4])]
    let found := Value.nested ⟨"A"⟩ .runtime .type [("x", .array [.boolean false])]
    let s := inFront (RawValue.wholeForm.encode raw ++ [255])
    let deep := inFront (RawValue.wholeForm.encode (tower 256).1)
    RawValue.wholeForm.encode raw =
        [64, 0, 1, 0, 2, 0, 2, 73, 0, 3, 0, 2, 91, 0, 1, 90, 0, 4] ∧
      (∃ t, outerValue c .type .runtime 1 s = .ok found t ∧ t.input = ⟨18, [255]⟩) ∧
      ∃ t, outerValue c .type .runtime 1 deep = .error .valueNesting t := by
  intro c raw found s deep
  obtain ⟨hvalue, -, -⟩ := outerValue_written c .type .runtime 1 (s := s) rfl
  obtain ⟨hdeep, -, -⟩ := outerValue_written c .type .runtime 1 (s := deep) rfl
  have harray : (RawValue.array [.constant 90 4]).StandsFor s.pool .type .runtime
      (.array [.boolean false]) :=
    .array (show 1 < UInt16.size by decide) (.cons (.constant rfl rfl) .nil)
  have hsettle : Annotation.settle [("x", .int 7), ("x", .array [.boolean false])] =
      [("x", .array [.boolean false])] := rfl
  have hstands : raw.StandsFor s.pool .type .runtime (.nested ⟨"A"⟩ .runtime .type <|
      Annotation.settle [("x", .int 7), ("x", .array [.boolean false])]) :=
    .nested ⟨"LA;", rfl, rfl, fun _ => by decide⟩ (show 2 < UInt16.size by decide)
      (.cons rfl (.cons rfl .nil)) (.cons (.constant rfl rfl) (.cons harray .nil))
  rw [hsettle] at hstands
  obtain ⟨hok, -⟩ := hvalue raw found [255] hstands (rest_inFront _)
  have hbytes : deep.input.rest = RawValue.wholeForm.encode (tower 256).1 ++ [] := by
    rw [List.append_nil, rest_inFront]
  obtain ⟨-, herror⟩ := hdeep (tower 256).1 (tower 256).2 [] (standsFor_tower _ _ _ 256) hbytes
  refine ⟨by decide +kernel, hok (by decide +kernel), herror ?_⟩
  rw [depth_tower]
  decide

end Decode

end ClassFile
