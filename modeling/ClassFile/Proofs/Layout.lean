import ClassFile.Layout
import ClassFile.Proofs.Invariant
import ClassFile.Proofs.Prefix
import Mathlib.Data.List.Induction

/-!
# Accepted files are layouts

Every class file that is accepted is written from a layout, and what its decoding does is what
is done with that layout (`ClassFile.Session.decode_eq_ok_iff`). So a fact about all accepted
files can be shown part by part, without the input.

A step of a decoding *parses* things of some form if it succeeds exactly where one of them
stands in the input, and then does with it what the action of the thing does
(`ClassFile.Decode.Parses`). Parsing composes as the decoder is composed.
-/

namespace ClassFile

/-! ### Numbers -/

namespace Bytes

@[simp]
theorem length_bigEndian (width n : Nat) : (bigEndian width n).length = width := by
  induction width generalizing n with
  | zero => rfl
  | succ width ih => simp [bigEndian, ih]

theorem number_append (bytes : Bytes) (byte : UInt8) :
    number (bytes ++ [byte]) = 256 * number bytes + byte.toNat := by
  simp [number]

/-- A number that is not too large for its width is read as it was written, the most significant
byte first. -/
theorem number_bigEndian {width n : Nat} (h : n < Nat.pow 256 width) :
    number (bigEndian width n) = n := by
  induction width generalizing n with
  | zero =>
    have hzero : n = 0 := Nat.lt_one_iff.1 h
    rw [hzero]
    rfl
  | succ width ih =>
    have hpow : Nat.pow 256 (width + 1) = Nat.pow 256 width * 256 := rfl
    have hquotient : n / 256 < Nat.pow 256 width := by omega
    have hremainder : (UInt8.ofNat n).toNat = n % 256 := rfl
    rw [bigEndian, number_append, ih hquotient, hremainder]
    omega

/-- Some bytes cannot make a number beyond their width. With `bigEndian_number` this is why every
field of a layout has one way to be written. -/
theorem number_lt {width : Nat} {bytes : Bytes} (h : bytes.length = width) :
    number bytes < Nat.pow 256 width := by
  subst h
  induction bytes using List.reverseRecOn with
  | nil => exact Nat.one_pos
  | append_singleton front last ih =>
    have hpow : Nat.pow 256 (front.length + 1) = Nat.pow 256 front.length * 256 := rfl
    have hlast := last.toNat_lt
    rw [number_append, List.length_append, List.length_singleton]
    omega

/-- And bytes are written as they were read, so a layout determines the bytes of a file. -/
theorem bigEndian_number {width : Nat} {bytes : Bytes} (h : bytes.length = width) :
    bigEndian width (number bytes) = bytes := by
  subst h
  induction bytes using List.reverseRecOn with
  | nil => rfl
  | append_singleton front last ih =>
    have hlast := last.toNat_lt
    have hquotient : (256 * number front + last.toNat) / 256 = number front := by omega
    have hremainder : UInt8.ofNat (256 * number front + last.toNat) = last := by
      refine UInt8.toNat_inj.1 ?_
      change (256 * number front + last.toNat) % 256 = last.toNat
      omega
    rw [List.length_append, List.length_singleton, bigEndian, number_append, hquotient, hremainder,
      ih]

end Bytes

/-! ### Parsing -/

namespace Decode

variable {ρ ρ' σ α β : Type}

/-- The step succeeds exactly where something of the form stands in the input, and then does
what its action does once it has been read. The action itself leaves the input alone. -/
structure Parses (form : Form ρ) (act : ρ → Decode α) (m : Decode α) : Prop where
  unfed (raw : ρ) : form.Fits raw → Unfed .decoder (act raw)
  eq_ok_iff (s : Decoder) (value : α) (t : Decoder) : m s = .ok value t ↔
    ∃ raw rest, form.Fits raw ∧ s.input.rest = form.encode raw ++ rest ∧
      act raw { s with input := ⟨s.input.offset + (form.encode raw).length, rest⟩ } = .ok value t

/-- A step that leaves the input alone leaves it as it was. -/
theorem input_of_unfed {m : Decode α} (hm : Unfed .decoder m) {s t : Decoder} {value : α}
    (h : m s = .ok value t) : t.input = s.input := by
  have hput : m s = onState (Feed.decoder.put s.input) (m s) := hm s.input s
  rw [h, onState, EStateM.Result.ok.injEq] at hput
  rw [hput.2]
  rfl

/-- A step that does not look at the input does the same on any input, and leaves it as it is. -/
theorem ok_of_unfed {m : Decode α} (hm : Unfed .decoder m) {s t : Decoder} {value : α}
    (h : m s = .ok value t) (input : Input) :
    m { s with input := input } = .ok value { t with input := input } := by
  have hput : m { s with input := input } = onState (Feed.decoder.put input) (m s) := hm input s
  rw [hput, h]
  rfl

theorem restored {t : Decoder} {input : Input} (h : t.input = input) :
    { t with input := input } = t := by
  rw [← h]

/-- A question to the pool has nothing to do with the input: only the entries are looked at. -/
theorem unfed_ask (question : Pool → Except Fault α) : Unfed .decoder (ask question) := by
  intro i s
  change ask question { s with input := i } = onState (Feed.decoder.put i) (ask question s)
  rw [ask, ask]
  cases question s.pool <;> rfl

namespace Parses

/-! ### Composition -/

/-- A step that leaves the input alone, before others, which may depend on what it comes to. -/
theorem after {form : Form ρ} {act : α → ρ → Decode β} {m : Decode α} {f : α → Decode β}
    (hm : Unfed .decoder m) (hf : ∀ a, Parses form (act a) (f a)) :
    Parses form (fun raw => m >>= fun a => act a raw) (m >>= f) where
  unfed raw hfits := hm.bind fun a => (hf a).unfed raw hfits
  eq_ok_iff s value u := by
    constructor
    · intro h
      obtain ⟨a, t, hrun, hlast⟩ := EStateM.ok_of_bind h
      obtain ⟨raw, rest, hfits, hfront, hact⟩ := ((hf a).eq_ok_iff t value u).1 hlast
      rw [input_of_unfed hm hrun] at hfront hact
      exact ⟨raw, rest, hfits, hfront, EStateM.bind_eq (ok_of_unfed hm hrun _) hact⟩
    · rintro ⟨raw, rest, hfits, hfront, hact⟩
      obtain ⟨a, t, hrun, hlast⟩ := EStateM.ok_of_bind hact
      have hback : m s = .ok a { t with input := s.input } := ok_of_unfed hm hrun s.input
      refine EStateM.bind_eq hback (((hf a).eq_ok_iff _ value u).2 ⟨raw, rest, hfits, hfront, ?_⟩)
      exact (congrArg (act a raw) (restored (input_of_unfed hm hrun))).trans hlast

/-- A step that leaves the input alone, after others. It belongs to what is done with what was
read. -/
theorem before {form : Form ρ} {act : ρ → Decode α} {m : Decode α} {f : α → Decode β}
    (hm : Parses form act m) (hf : ∀ a, Unfed .decoder (f a)) :
    Parses form (fun raw => act raw >>= f) (m >>= f) where
  unfed raw hfits := (hm.unfed raw hfits).bind hf
  eq_ok_iff s value u := by
    constructor
    · intro h
      obtain ⟨a, t, hrun, hlast⟩ := EStateM.ok_of_bind h
      obtain ⟨raw, rest, hfits, hfront, hact⟩ := (hm.eq_ok_iff s a t).1 hrun
      exact ⟨raw, rest, hfits, hfront, EStateM.bind_eq hact hlast⟩
    · rintro ⟨raw, rest, hfits, hfront, hact⟩
      obtain ⟨a, t, hrun, hlast⟩ := EStateM.ok_of_bind hact
      exact EStateM.bind_eq ((hm.eq_ok_iff s a t).2 ⟨raw, rest, hfits, hfront, hrun⟩) hlast

/-- Things that stand one after the other, the first of which is acted upon before the second
is read. -/
theorem bind {form : Form ρ} {form' : Form ρ'} {act : ρ → Decode α} {act' : α → ρ' → Decode β}
    {m : Decode α} {f : α → Decode β} (hm : Parses form act m)
    (hf : ∀ a, Parses form' (act' a) (f a)) :
    Parses (form.andThen fun _ => form') (fun raw => act raw.1 >>= fun a => act' a raw.2)
      (m >>= f) where
  unfed raw hfits := (hm.unfed raw.1 hfits.1).bind fun a => (hf a).unfed raw.2 hfits.2
  eq_ok_iff s value u := by
    constructor
    · intro h
      obtain ⟨a, t, hrun, hlast⟩ := EStateM.ok_of_bind h
      obtain ⟨raw, rest, hfits, hfront, hact⟩ := (hm.eq_ok_iff s a t).1 hrun
      obtain ⟨raw', rest', hfits', hfront', hact'⟩ := ((hf a).eq_ok_iff t value u).1 hlast
      rw [input_of_unfed (hm.unfed raw hfits) hact] at hfront' hact'
      refine ⟨(raw, raw'), rest', ⟨hfits, hfits'⟩, ?_, ?_⟩
      · rw [hfront, show rest = _ from hfront', Form.andThen, List.append_assoc]
      · refine EStateM.bind_eq (ok_of_unfed (hm.unfed raw hfits) hact _) ?_
        rw [Form.andThen, List.length_append, ← Nat.add_assoc]
        exact hact'
    · rintro ⟨⟨raw, raw'⟩, rest, ⟨hfits, hfits'⟩, hfront, hact⟩
      rw [Form.andThen, List.append_assoc] at hfront
      rw [Form.andThen, List.length_append, ← Nat.add_assoc] at hact
      obtain ⟨a, t, hrun, hlast⟩ := EStateM.ok_of_bind hact
      let middle : Input :=
        ⟨s.input.offset + (form.encode raw).length, form'.encode raw' ++ rest⟩
      have hback : m s = .ok a { t with input := middle } :=
        (hm.eq_ok_iff s a _).2
          ⟨raw, _, hfits, hfront, ok_of_unfed (hm.unfed raw hfits) hrun middle⟩
      refine EStateM.bind_eq hback (((hf a).eq_ok_iff _ value u).2 ⟨raw', rest, hfits', rfl, ?_⟩)
      exact (congrArg (act' a raw')
        (restored (input_of_unfed (hm.unfed raw hfits) hrun))).trans hlast

/-- A thing that is only read, and what its form lets follow. What is done in the end may depend on
both. -/
theorem read {form : Form ρ} {form' : ρ → Form ρ'} {act : ρ → ρ' → Decode β} {m : Decode ρ}
    {f : ρ → Decode β} (hm : Parses form pure m)
    (hf : ∀ raw, Parses (form' raw) (act raw) (f raw)) :
    Parses (form.andThen form') (fun raw => act raw.1 raw.2) (m >>= f) where
  unfed raw hfits := (hf raw.1).unfed raw.2 hfits.2
  eq_ok_iff s value u := by
    constructor
    · intro h
      obtain ⟨raw, t, hrun, hlast⟩ := EStateM.ok_of_bind h
      obtain ⟨_, rest, hfits, hfront, hact⟩ := (hm.eq_ok_iff s raw t).1 hrun
      cases hact
      obtain ⟨raw', rest', hfits', hfront', hact'⟩ := ((hf raw).eq_ok_iff _ value u).1 hlast
      refine ⟨(raw, raw'), rest', ⟨hfits, hfits'⟩, ?_, ?_⟩
      · rw [hfront, show rest = _ from hfront', Form.andThen, List.append_assoc]
      · rw [Form.andThen, List.length_append, ← Nat.add_assoc]
        exact hact'
    · rintro ⟨⟨raw, raw'⟩, rest, ⟨hfits, hfits'⟩, hfront, hact⟩
      rw [Form.andThen, List.append_assoc] at hfront
      rw [Form.andThen, List.length_append, ← Nat.add_assoc] at hact
      refine EStateM.bind_eq ((hm.eq_ok_iff s raw _).2 ⟨raw, _, hfits, hfront, rfl⟩) ?_
      exact ((hf raw).eq_ok_iff _ value u).2 ⟨raw', rest, hfits', rfl, hact⟩

/-- What is done may depend on anything in the state but the input, on which methods there are or on
what is walked through. -/
theorem look {form : Form ρ} {act : Decoder → ρ → Decode α} {k : Decoder → Decode α}
    (hk : ∀ s, Parses form (act s) (k s))
    (hact : ∀ s input, act { s with input := input } = act s) :
    Parses form (fun raw => get >>= fun s => act s raw) (get >>= k) where
  unfed raw hfits := .look (fun s => (hk s).unfed raw hfits) fun i s => congrFun (hact s i) raw
  eq_ok_iff s value t := by
    constructor
    · intro h
      obtain ⟨raw, rest, hfits, hfront, hrun⟩ := ((hk s).eq_ok_iff s value t).1 h
      refine ⟨raw, rest, hfits, hfront, ?_⟩
      exact (congrFun (congrFun (hact s _) raw) _).trans hrun
    · rintro ⟨raw, rest, hfits, hfront, hrun⟩
      refine ((hk s).eq_ok_iff s value t).2 ⟨raw, rest, hfits, hfront, ?_⟩
      exact (congrFun (congrFun (hact s _) raw) _).symm.trans hrun

/-- The same things under another form, as a record whose fields were read one after the other.
Things correspond to each other, and are written with the same bytes. -/
theorem map {form : Form ρ} {form' : Form σ} {act : ρ → Decode α} {act' : σ → Decode α}
    {m : Decode α} (hm : Parses form act m) (e : ρ → σ)
    (hfits : ∀ raw, form.Fits raw → form'.Fits (e raw))
    (hencode : ∀ raw, form.Fits raw → form'.encode (e raw) = form.encode raw)
    (hact : ∀ raw, act' (e raw) = act raw)
    (hback : ∀ raw', form'.Fits raw' → ∃ raw, form.Fits raw ∧ e raw = raw') :
    Parses form' act' m where
  unfed raw' h := by
    obtain ⟨raw, hfits, rfl⟩ := hback raw' h
    rw [hact]
    exact hm.unfed raw hfits
  eq_ok_iff s value t := by
    rw [hm.eq_ok_iff]
    constructor
    · rintro ⟨raw, rest, h, hfront, hrun⟩
      refine ⟨e raw, rest, hfits raw h, ?_, ?_⟩
      · rw [hencode raw h, hfront]
      · rw [hencode raw h, hact, hrun]
    · rintro ⟨raw', rest, h, hfront, hrun⟩
      obtain ⟨raw, hraw, rfl⟩ := hback raw' h
      rw [hencode raw hraw] at hfront hrun
      rw [hact] at hrun
      exact ⟨raw, rest, hraw, hfront, hrun⟩

/-! ### Numbers and tables -/

/-- Some bytes are taken from the front of the input, whatever they are. All other readings are made
of this one. -/
theorem take (n : Nat) : Parses (Form.bytes n) pure (Decode.read (Input.take n)) where
  unfed bytes _ := .pure bytes
  eq_ok_iff s value t := by
    rw [Decode.read]
    constructor
    · intro h
      rcases Nat.lt_or_ge s.input.rest.length n with hlt | hge
      · rw [Input.take_of_lt hlt] at h
        cases h
      · rw [Input.take_of_le hge] at h
        cases h
        have hlength : (s.input.rest.take n).length = n := List.length_take_of_le hge
        refine ⟨s.input.rest.take n, s.input.rest.drop n, hlength, ?_, ?_⟩
        · exact (List.take_append_drop n s.input.rest).symm
        · rw [Form.bytes, hlength]
          rfl
    · rintro ⟨bytes, rest, hfits, hfront, hact⟩
      cases hact
      have hfront : s.input.rest = value ++ rest := hfront
      have hlength : value.length = n := hfits
      have hge : n ≤ s.input.rest.length := by
        rw [hfront, List.length_append, hlength]
        exact Nat.le_add_right n rest.length
      rw [Input.take_of_le hge, hfront, List.take_left' hlength, List.drop_left' hlength,
        Form.bytes, hlength]

/-- A number of a fixed width, by the type that holds it. All numbers of the files are read this
way, the first byte being the highest. -/
theorem number {ν : Type} {width : Nat} {ofNat : Nat → ν} {toNat : ν → Nat}
    (hof : ∀ n < Nat.pow 256 width, toNat (ofNat n) = n)
    (hto : ∀ value, ofNat (toNat value) = value)
    (hlt : ∀ value, toNat value < Nat.pow 256 width) :
    Parses ⟨fun value => Bytes.bigEndian width (toNat value), fun _ => True⟩ pure
      (Decode.read (do return ofNat (← Input.take width).number)) := by
  have htake : Parses (Form.bytes width) (fun bytes => pure (ofNat bytes.number))
      (Decode.read (do return ofNat (← Input.take width).number)) := by
    rw [read_bind]
    exact (take width).before fun bytes => .pure _
  refine Parses.map htake (fun bytes => ofNat (Bytes.number bytes)) (fun _ _ => trivial) ?_
    (fun _ => rfl) ?_
  · intro bytes hlength
    change Bytes.bigEndian width (toNat (ofNat (Bytes.number bytes))) = bytes
    rw [hof _ (Bytes.number_lt hlength), Bytes.bigEndian_number hlength]
  · intro value _
    refine ⟨Bytes.bigEndian width (toNat value), Bytes.length_bigEndian width _, ?_⟩
    rw [Bytes.number_bigEndian (hlt value), hto]

theorem u2 : Parses .u2 pure Decode.u2 :=
  number (fun _ h => UInt16.toNat_ofNat_of_lt' h) (fun _ => UInt16.ofNat_toNat)
    fun value => value.toNat_lt

theorem u4 : Parses .u4 pure (Decode.read Input.u4) :=
  number (fun _ h => UInt32.toNat_ofNat_of_lt' h) (fun _ => UInt32.ofNat_toNat)
    fun value => value.toNat_lt

/-- A number of elements, which fits into two bytes. -/
theorem count : Parses .count pure Decode.count := by
  refine Parses.map (u2.before fun n => .pure n.toNat) UInt16.toNat (fun n _ => n.toNat_lt)
    (fun _ _ => rfl) (fun _ => rfl) fun n hn => ⟨UInt16.ofNat n, trivial, ?_⟩
  exact UInt16.toNat_ofNat_of_lt' hn

/-- No things at all: nothing is read, and what is done with none of them is done. -/
theorem nil {form : Form ρ} {act : List ρ → Decode α} (hact : Unfed .decoder (act [])) :
    Parses (.times 0 form) act (act []) where
  unfed raws hfits := by
    rw [List.length_eq_zero_iff.1 hfits.1]
    exact hact
  eq_ok_iff s value t := by
    constructor
    · intro h
      exact ⟨[], s.input.rest, ⟨rfl, nofun⟩, rfl, h⟩
    · rintro ⟨raws, rest, ⟨hlength, -⟩, hfront, h⟩
      obtain rfl := List.length_eq_zero_iff.1 hlength
      obtain rfl : s.input.rest = rest := hfront
      exact h

/-- A thing before a number of others, with which it makes a list. -/
theorem cons {form : Form ρ} {n : Nat} {act : ρ × List ρ → Decode α} {act' : List ρ → Decode α}
    {m : Decode α} (hm : Parses (form.andThen fun _ => .times n form) act m)
    (hact : ∀ raw raws, act' (raw :: raws) = act (raw, raws)) :
    Parses (.times (n + 1) form) act' m := by
  refine hm.map (fun raws => raws.1 :: raws.2) ?_ (fun _ _ => rfl) (fun _ => hact ..) ?_
  · rintro ⟨raw, raws⟩ ⟨hraw, hlength, hraws⟩
    exact ⟨congrArg (· + 1) hlength, List.forall_mem_cons.2 ⟨hraw, hraws⟩⟩
  · rintro raws ⟨hlength, hraws⟩
    obtain ⟨raw, rest, rfl⟩ := List.exists_cons_of_length_eq_add_one hlength
    obtain ⟨hraw, hrest⟩ := List.forall_mem_cons.1 hraws
    exact ⟨(raw, rest), ⟨hraw, Nat.succ.inj hlength, hrest⟩, rfl⟩

/-- The same step a number of times reads as many things, and acts on them one by one. -/
theorem repeated {form : Form ρ} {act : ρ → Decode Unit} {m : Decode Unit}
    (hm : Parses form act m) (n : Nat) :
    Parses (.times n form) (fun raws => raws.forM act) (Decode.repeated n m) := by
  induction n with
  | zero => exact @nil _ _ _ (fun raws => raws.forM act) (.pure ())
  | succ n ih => exact (hm.bind fun _ => ih).cons fun _ _ => rfl

/-- A number of values, each by the same step, in the order in which they stand. -/
theorem listOf {form : Form ρ} {act : ρ → Decode α} {m : Decode α} (hm : Parses form act m)
    (n : Nat) : Parses (.times n form) (fun raws => raws.mapM act) (Decode.listOf n m) := by
  induction n with
  | zero => exact @nil _ _ _ (fun raws => raws.mapM act) (.pure [])
  | succ n ih => exact (hm.bind fun _ => ih.before fun _ => .pure _).cons fun _ _ => List.mapM_cons

/-- A table, after the number of its elements. What the elements are may not depend on their number
otherwise. -/
theorem table {form : Form ρ} {act : List ρ → Decode α} {f : Nat → Decode α}
    (hf : ∀ n, Parses (.times n form) act (f n)) : Parses form.table act (Decode.count >>= f) := by
  refine Parses.map (count.read hf) Prod.snd ?_ ?_ (fun _ => rfl) ?_
  · rintro ⟨n, raws⟩ ⟨hcount, hlength, hraws⟩
    obtain rfl : raws.length = n := hlength
    exact ⟨hcount, hraws⟩
  · rintro ⟨n, raws⟩ ⟨-, hlength, -⟩
    obtain rfl : raws.length = n := hlength
    rfl
  · rintro raws ⟨hcount, hraws⟩
    exact ⟨(raws.length, raws), ⟨hcount, rfl, hraws⟩, rfl⟩

/-- A table, and what stands after it, which may depend on what came of the table. -/
theorem tableThen {form : Form ρ} {form' : Form ρ'} {act : List ρ → Decode α}
    {act' : α → ρ' → Decode β} {f : Nat → Decode α} {g : α → Decode β}
    (hf : ∀ n, Parses (.times n form) act (f n)) (hg : ∀ a, Parses form' (act' a) (g a)) :
    Parses (form.table.andThen fun _ => form') (fun raw => act raw.1 >>= fun a => act' a raw.2)
      (Decode.count >>= fun n => f n >>= g) := by
  have h := (table hf).bind hg
  rwa [bind_assoc] at h

/-- What is checked before anything is read is part of the form: only things that pass fit. -/
theorem provided {form : Form ρ} {act : ρ → Decode α} {m : Decode α} {p : Prop}
    (hm : p → Parses form act m) (hnot : ¬p → ∀ s value t, m s ≠ .ok value t) :
    Parses (form.provided p) act m where
  unfed raw hfits := (hm hfits.1).unfed raw hfits.2
  eq_ok_iff s value t := by
    constructor
    · intro h
      have hp : p := Classical.byContradiction fun hp => hnot hp s value t h
      obtain ⟨raw, rest, hfits, hfront, hact⟩ := ((hm hp).eq_ok_iff s value t).1 h
      exact ⟨raw, rest, ⟨hp, hfits⟩, hfront, hact⟩
    · rintro ⟨raw, rest, ⟨hp, hfits⟩, hfront, hact⟩
      exact ((hm hp).eq_ok_iff s value t).2 ⟨raw, rest, hfits, hfront, hact⟩

/-! ### Attributes and members -/

variable (c : Context)

/-- An attribute has a name, a length, and a body that is cut off before it is read. So it is acted
upon with an input of its own, and whatever the body leaves unread is dropped. -/
theorem oneAttribute (onCode : Decode Unit) (site : Site) (access : Access) :
    Parses RawAttribute.form (attributeOf c onCode site access)
      (oneAttribute c onCode site access) := by
  have hbody (kind : AttributeKind) (length : UInt32) :
      Parses ((Form.bytes length.toNat).provided (length.toNat ≤ attributeLimit))
        (fun bytes => Decode.within bytes (attributeBody c onCode site access kind)) (do
          if attributeLimit < length.toNat then throw (.attributeLength length)
          let body ← Decode.read (Input.take length.toNat)
          Decode.within body (attributeBody c onCode site access kind)) := by
    refine provided (fun hle => ?_) fun hlt s value t h => ?_
    · rw [if_neg (Nat.not_lt.2 hle)]
      exact (take _).before fun bytes => unfed_within bytes _
    · rw [if_pos (Nat.lt_of_not_le hlt)] at h
      exact nomatch h
  have hattribute := u2.read fun index =>
    after (unfed_ask (·.utf8 index)) fun name => u4.read fun length =>
      hbody (.ofName name) length
  refine hattribute.map (fun raw => ⟨raw.1, raw.2.2⟩) ?_ ?_ (fun _ => rfl) ?_
  · rintro ⟨index, length, body⟩ ⟨-, -, hlimit, hlength⟩
    exact Nat.le_trans (Nat.le_of_eq hlength) hlimit
  · rintro ⟨index, length, body⟩ ⟨-, -, -, hlength⟩
    have hlength : body.length = length.toNat := hlength
    change Form.u2.encode index ++ (Bytes.bigEndian 4 body.length ++ body) = _
    rw [hlength]
    rfl
  · rintro ⟨index, body⟩ hlimit
    have hlimit : body.length ≤ attributeLimit := hlimit
    have hlength : (UInt32.ofNat body.length).toNat = body.length :=
      UInt32.toNat_ofNat_of_lt' (Nat.lt_of_le_of_lt hlimit (by decide))
    refine ⟨(index, .ofNat body.length, body), ⟨trivial, trivial, ?_, ?_⟩, rfl⟩
    · exact Nat.le_trans (Nat.le_of_eq hlength) hlimit
    · exact hlength.symm

/-- A table of attributes is read attribute by attribute, each of which is acted upon before the
next one is read. -/
theorem attributes (onCode : Decode Unit) (site : Site) (access : Access) :
    Parses RawAttribute.form.table (attributesOf c onCode site access)
      (attributes c onCode site access) :=
  table fun n => (oneAttribute c onCode site access).repeated n

/-- The body of a signature is an index, and what is done with it does not read on. -/
theorem signature (site : Site) (access : Access) :
    Parses Form.u2 (signatureAt c site access) (signatureAttribute c site access) := by
  have hunfed : Indifferent c c fun {α} (m m' : Decode α) => m = m' ∧ Unfed .decoder m :=
    unfed_indifferent
  have hattempt (index : UInt16) := unfed_succeeds (hunfed.naming.referDescriptor index access).2
  exact u2.before fun index => (hunfed.noting.signatureAt ⟨rfl, hattempt index⟩
    (fun _ => hunfed.updateMember _) site).2

/-- The exceptions of a method are a table of indices, each of a class that is referred to. -/
theorem exceptions (access : Access) : Parses Form.u2.table
    (fun indices => indices.forM fun index => classAt index >>= fun type => refer c type access)
    (exceptionsAttribute c access) := by
  have hunfed : Indifferent c c fun {α} (m m' : Decode α) => m = m' ∧ Unfed .decoder m :=
    unfed_indifferent
  have hone (index : UInt16) := hunfed.bind (hunfed.naming.classAt index) fun type =>
    hunfed.refer type access
  exact table fun n => (u2.before fun index => (hone index).2).repeated n

/-- The first three numbers of a member. -/
def header : Form (Access × UInt16 × UInt16) :=
  Form.u2.andThen fun _ => Form.u2.andThen fun _ => Form.u2

/-- The header of a member is read without its attributes, which are acted upon when the member has
been put on record. -/
theorem memberHeader : Parses header (fun raw => memberHeaderOf ⟨raw.1, raw.2.1, raw.2.2, []⟩)
    memberHeader :=
  u2.read fun access => u2.read fun nameIndex => after (unfed_ask (·.utf8 nameIndex)) fun name =>
    u2.before fun index => (unfed_ask (·.utf8 index)).bind fun descriptor =>
      .pure (⟨access, name, descriptor, index⟩ : MemberHeader)

/-- A member, given what is done with its attributes. The header is read in front, and is what all
the rest depends on. -/
theorem member {act : MemberHeader → List RawAttribute → Decode Unit}
    {f : MemberHeader → Decode Unit}
    (hf : ∀ header, Parses RawAttribute.form.table (act header) (f header)) :
    Parses RawMember.form
      (fun raw => memberHeaderOf raw >>= fun header => act header raw.attributes)
      (Decode.memberHeader >>= f) := by
  refine (memberHeader.bind hf).map (fun raw => ⟨raw.1.1, raw.1.2.1, raw.1.2.2, raw.2⟩) ?_ ?_
    (fun _ => rfl) ?_
  · rintro raw ⟨-, hattributes⟩
    exact hattributes
  · rintro ⟨⟨access, name, descriptor⟩, raws⟩ -
    simp only [RawMember.form, header, Form.andThen, List.append_assoc]
  · rintro ⟨access, name, descriptor, raws⟩ hattributes
    exact ⟨((access, name, descriptor), raws), ⟨⟨trivial, trivial, trivial⟩, hattributes⟩, rfl⟩

/-- A field is acted upon with the attributes of a field, of which no body is entered. -/
theorem field : Parses RawMember.form (fieldOf c) (field c) :=
  member fun header => after (unfed_indifferent.recording.openField header).2 fun _ =>
    attributes c (pure ()) .field header.access

/-- A method is acted upon with the attributes of a method. Whether a body is entered depends on the
state and not on the bytes in front of it. -/
theorem method : Parses RawMember.form (methodOf c) (method c) := by
  let act (header : MemberHeader) (raws : List RawAttribute) : Decode Unit := do
    openMethod c header
    let onCode := if (← get).walking then code c else pure ()
    attributesOf c onCode (if header.isConstructor then .constructor else .method)
      header.access raws
  have hrest (header : MemberHeader) : Parses RawAttribute.form.table (act header) (do
      openMethod c header
      let onCode := if (← get).walking then code c else pure ()
      Decode.attributes c onCode (if header.isConstructor then .constructor else .method)
        header.access) :=
    after (unfed_indifferent.recording.openMethod header).2 fun _ =>
      look (fun _ => attributes c _ _ header.access) fun _ _ => rfl
  exact member hrest

end Parses

end Decode

namespace Decode

/-- The header that a member comes to is the one that was written, and to look its texts up changes
nothing. -/
theorem memberHeaderOf_ok {raw : RawMember} {header : MemberHeader} {s t : Decoder}
    (hrun : memberHeaderOf raw s = .ok header t) :
    t = s ∧ header.access = raw.access ∧ header.descriptorIndex = raw.descriptor ∧
      s.pool.utf8 raw.name = .ok header.name ∧
      s.pool.utf8 raw.descriptor = .ok header.descriptor := by
  obtain ⟨name, _, hname, hrest⟩ := EStateM.ok_of_bind hrun
  obtain ⟨hname, rfl⟩ := ok_of_utf8 hname
  obtain ⟨descriptor, _, hdescriptor, hlast⟩ := EStateM.ok_of_bind hrest
  obtain ⟨hdescriptor, rfl⟩ := ok_of_utf8 hdescriptor
  cases hlast
  exact ⟨rfl, rfl, rfl, hname, hdescriptor⟩

/-- An attribute is read if its name is found and its body is read as one of that name. -/
theorem attributeOf_eq_ok_iff {c : Context} {onCode : Decode Unit} {site : Site} {access : Access}
    {raw : RawAttribute} {s t : Decoder} :
    attributeOf c onCode site access raw s = .ok () t ↔
      ∃ name, s.pool.utf8 raw.name = .ok name ∧
        within raw.body (attributeBody c onCode site access (.ofName name)) s = .ok () t := by
  constructor
  · intro hrun
    obtain ⟨name, _, hname, hbody⟩ := EStateM.ok_of_bind hrun
    obtain ⟨hname, rfl⟩ := ok_of_utf8 hname
    exact ⟨name, hname, hbody⟩
  · rintro ⟨name, hname, hbody⟩
    exact EStateM.bind_eq (utf8_of_ok hname) hbody

/-! ### What the decoding of a class comes to -/

/-- A class is opened when its name is known: it is referred to with the flag of a public class, so
that a public class exposes its own package, and then its record is begun. -/
theorem openClass_eq_ok_iff {c : Context} {record : Record} {s t : Decoder} :
    openClass c record s = .ok () t ↔
      ∃ u, refer c record.name Access.publicBit
          { s with api := if record.access.isPublic then some ∅ else none } = .ok () u ∧
        t = { u with record := some record } := by
  constructor
  · intro hrun
    obtain ⟨_, _, hapi, hrest⟩ := EStateM.ok_of_bind hrun
    cases hapi
    obtain ⟨_, u, hrefer, hput⟩ := EStateM.ok_of_bind hrest
    cases hput
    exact ⟨u, hrefer, rfl⟩
  · rintro ⟨u, hrefer, rfl⟩
    exact EStateM.bind_eq rfl (EStateM.bind_eq hrefer rfl)

/-- Up to its name a class is read if its pool is gone through, the name is found in it, and the
class is opened. -/
theorem classHeaderOf_eq_ok_iff {c : Context} {raw : RawHeader} {header : Record × Bool}
    {s t : Decoder} :
    classHeaderOf c raw s = .ok header t ↔
      ∃ u name, referPool c { s.told c (.version raw.minor raw.major) with pool := raw.constants } =
          .ok () u ∧ u.pool.className raw.name = .ok name ∧
        header = (.header (.ofText name) raw.major raw.minor raw.access, u.pool.hasOrphan) ∧
        openClass c header.1 u = .ok () t := by
  constructor
  · intro hrun
    obtain ⟨_, _, htell, hrest⟩ := EStateM.ok_of_bind hrun
    cases htell
    obtain ⟨_, _, hpool, hrest⟩ := EStateM.ok_of_bind hrest
    cases hpool
    obtain ⟨_, u, hrefer, hrest⟩ := EStateM.ok_of_bind hrest
    obtain ⟨_, _, hget, hrest⟩ := EStateM.ok_of_bind hrest
    cases hget
    obtain ⟨_, _, hclass, hrest⟩ := EStateM.ok_of_bind hrest
    obtain ⟨name, hname, rfl, rfl⟩ := ok_of_classAt hclass
    obtain ⟨_, _, hopen, hdone⟩ := EStateM.ok_of_bind hrest
    cases hdone
    exact ⟨_, name, hrefer, hname, rfl, hopen⟩
  · rintro ⟨u, name, hrefer, hname, rfl, hopen⟩
    have hclass : classAt raw.name u = .ok (.ofText name) u := by
      refine EStateM.bind_eq (t := u) (a := name) ?_ rfl
      rw [ask, hname]
    exact EStateM.bind_eq rfl <| EStateM.bind_eq rfl <| EStateM.bind_eq hrefer <|
      EStateM.bind_eq rfl <| EStateM.bind_eq hclass <| EStateM.bind_eq hopen rfl

/-- Behind its name a class is read if its supertypes, its members and its attributes are. -/
theorem classBodyOf_eq_ok_iff {namer : Namer} {orphan : Bool} {raw : RawBody} {record : Record}
    {s t : Decoder} :
    classBodyOf ⟨namer, none⟩ orphan raw s = .ok record t ↔
      ∃ found t₁ t₂ t₃ t₄ t₅ t₆, s.record = some found ∧
        superclassAt ⟨namer, none⟩ found.access raw.superclass s = .ok () t₁ ∧
        interfacesOf ⟨namer, none⟩ found.access raw.interfaces t₁ = .ok () t₂ ∧
        raw.fields.forM (fieldOf ⟨namer, none⟩) t₂ = .ok () t₃ ∧
        prepareWalks orphan t₃ = .ok () t₄ ∧
        raw.methods.forM (methodOf ⟨namer, none⟩) t₄ = .ok () t₅ ∧
        attributesOf ⟨namer, none⟩ (pure ()) .type found.access raw.attributes
          { t₅ with last := none } = .ok () t₆ ∧
        finish t₆ = .ok record t := by
  constructor
  · intro hrun
    obtain ⟨found, _, hfound, hrest⟩ := EStateM.ok_of_bind hrun
    obtain ⟨rfl, hfound⟩ := ok_of_record hfound
    obtain ⟨_, t₁, hsuper, hrest⟩ := EStateM.ok_of_bind hrest
    obtain ⟨_, t₂, hinterfaces, hrest⟩ := EStateM.ok_of_bind hrest
    obtain ⟨_, t₃, hfields, hrest⟩ := EStateM.ok_of_bind hrest
    obtain ⟨_, t₄, hwalks, hrest⟩ := EStateM.ok_of_bind hrest
    obtain ⟨_, t₅, hmethods, hrest⟩ := EStateM.ok_of_bind hrest
    obtain ⟨_, _, htell, hrest⟩ := EStateM.ok_of_bind hrest
    cases htell
    obtain ⟨_, _, hlast, hrest⟩ := EStateM.ok_of_bind hrest
    cases hlast
    obtain ⟨_, t₆, hattributes, hfinish⟩ := EStateM.ok_of_bind hrest
    exact ⟨found, t₁, t₂, t₃, t₄, t₅, t₆, hfound, hsuper, hinterfaces, hfields, hwalks, hmethods,
      hattributes, hfinish⟩
  · rintro ⟨found, t₁, t₂, t₃, t₄, t₅, t₆, hfound, hsuper, hinterfaces, hfields, hwalks, hmethods,
      hattributes, hfinish⟩
    exact EStateM.bind_eq (record_of_some hfound) <| EStateM.bind_eq hsuper <|
      EStateM.bind_eq hinterfaces <| EStateM.bind_eq hfields <| EStateM.bind_eq hwalks <|
      EStateM.bind_eq hmethods <| EStateM.bind_eq rfl <| EStateM.bind_eq rfl <|
      EStateM.bind_eq hattributes hfinish

end Decode

/-! ### The pool -/

namespace Pool

/-- What a pool held before does not show when it is read anew, for all its slots are filled. -/
theorem read_of_pool {input : Input} {old : Pool} {filled : Filling}
    (h : Pool.read ⟨input, old⟩ = .ok () filled) (other : Pool) :
    Pool.read ⟨input, other⟩ = .ok () filled := by
  obtain ⟨count, _, hcount, hrest⟩ := EStateM.ok_of_bind h
  obtain ⟨rest, hread, rfl⟩ := Filling.field_eq_ok_iff.1 hcount
  refine EStateM.bind_eq (Filling.field_eq_ok_iff.2 ⟨rest, hread, rfl⟩) ?_
  by_cases hzero : count = 0
  · rw [if_pos hzero] at hrest
    cases hrest
  · rw [if_neg hzero] at hrest ⊢
    exact hrest

/-- The bytes of a pool are those that are taken when it is read, wherever it stands and whatever
comes behind it. -/
theorem ofBytes_eq_some_iff {bytes : Bytes} {pool : Pool} : ofBytes bytes = some pool ↔
    ∀ offset rest old, Pool.read ⟨⟨offset, bytes ++ rest⟩, old⟩ =
      .ok () ⟨⟨offset + bytes.length, rest⟩, pool⟩ := by
  constructor
  · intro h offset rest old
    rw [ofBytes] at h
    split at h
    · rename_i input found hread
      cases h
      obtain ⟨taken, hfront, -, hrest, -⟩ := Prefixed.pool _ _ _ hread
      have hfront : bytes = taken ++ [] := congrArg Input.rest hfront
      rw [List.append_nil] at hfront
      subst hfront
      exact read_of_pool (hrest offset rest) old
    · cases h
  · intro h
    have hread := h 0 [] .empty
    rw [List.append_nil] at hread
    rw [ofBytes, show (⟨.ofBytes bytes, .empty⟩ : Filling) = ⟨⟨0, bytes⟩, .empty⟩ from rfl, hread]

end Pool

namespace Decode.Parses

/-- The bytes of a pool, if they are all of it. -/
def poolForm : Form Bytes where
  encode bytes := bytes
  Fits bytes := (Pool.ofBytes bytes).isSome

/-- The pool takes bytes up to its last entry. Which pool comes of them does not depend on what the
pool held before. -/
theorem readPool : Parses poolForm
    (fun bytes => modify fun s => { s with pool := (Pool.ofBytes bytes).getD .empty })
    readPool where
  unfed _ _ := .modify fun _ _ => rfl
  eq_ok_iff s value t := by
    rw [Decode.readPool]
    constructor
    · intro h
      cases hread : Pool.read ⟨s.input, s.pool⟩ with
      | error fault filled =>
        rw [hread] at h
        cases h
      | ok _ filled =>
        rw [hread] at h
        cases h
        obtain ⟨taken, hfront, hoffset, hrest, -⟩ := Prefixed.pool _ _ _ hread
        have hpool : Pool.ofBytes taken = some filled.pool :=
          Pool.ofBytes_eq_some_iff.2 fun offset rest old =>
            Pool.read_of_pool (hrest offset rest) old
        refine ⟨taken, filled.input.rest, ?_, congrArg Input.rest hfront, ?_⟩
        · exact Option.isSome_iff_exists.2 ⟨_, hpool⟩
        · rw [hpool, Option.getD_some]
          change _ = EStateM.Result.ok () { s with input := filled.input, pool := filled.pool }
          rw [show filled.input = ⟨s.input.offset + taken.length, filled.input.rest⟩ from
            congrArg (Input.mk · filled.input.rest) hoffset]
          rfl
    · rintro ⟨bytes, rest, hfits, hfront, hact⟩
      obtain ⟨pool, hpool⟩ := Option.isSome_iff_exists.1 hfits
      rw [hpool, Option.getD_some] at hact
      cases hact
      have hread := Pool.ofBytes_eq_some_iff.1 hpool s.input.offset rest s.pool
      rw [show s.input = ⟨s.input.offset, bytes ++ rest⟩ from
        congrArg (Input.mk s.input.offset) hfront, hread]
      rfl

/-! ### Classes -/

variable (c : Context)

/-- The magic number. -/
def magicForm : Form Unit where
  encode _ := Form.u4.encode magic
  Fits _ := True

/-- The first four bytes are the same for all class files, so there is nothing to choose in their
form. -/
theorem checkMagic : Parses magicForm pure checkMagic where
  unfed _ _ := .pure ()
  eq_ok_iff s value t := by
    have hunfed (found : UInt32) : Unfed .decoder
        (if found ≠ magic then throw (.badMagic found) else pure () : Decode Unit) := by
      split
      · exact .throw _
      · exact .pure ()
    rw [Decode.checkMagic, (u4.before hunfed).eq_ok_iff]
    constructor
    · rintro ⟨found, rest, -, hfront, hact⟩
      by_cases h : found = magic
      · subst h
        exact ⟨(), rest, trivial, hfront, hact⟩
      · rw [show (pure found >>= _) = (throw (.badMagic found) : Decode Unit) from if_pos h] at hact
        cases hact
    · rintro ⟨_, rest, -, hfront, hact⟩
      exact ⟨magic, rest, trivial, hfront, hact⟩

/-- **Everything up to the name of a class**: the magic number, the version, the pool, the flags,
and the index of the name. -/
theorem classHeader : Parses RawHeader.form (classHeaderOf c) (classHeader c) := by
  have hname (raw : Access × UInt16) (minor major : UInt16) (orphan : Bool) :
      Unfed .decoder (classAt raw.2 >>= fun name =>
        openClass c (.header name major minor raw.1) >>= fun _ =>
        pure (Record.header name major minor raw.1, orphan)) :=
    ((unfed_ask (·.className raw.2)).bind fun _ => .pure _).bind fun _ =>
      (unfed_indifferent.openClass _).2.bind fun _ => .pure _
  have hrest (minor major : UInt16) :=
    after (@unfed_indifferent c |>.tell (.version minor major)).2 fun _ => readPool.bind fun _ =>
      after (@unfed_indifferent c).pooled.referPool.2 fun _ =>
        look (fun s => u2.read fun access => u2.before fun name =>
          hname (access, name) minor major s.pool.hasOrphan) fun _ _ => rfl
  have hheader := checkMagic.bind fun _ => u2.read fun minor => u2.read fun major =>
    hrest minor major
  let e (raw : Unit × UInt16 × UInt16 × Bytes × Access × UInt16) : RawHeader :=
    ⟨raw.2.1, raw.2.2.1, raw.2.2.2.1, raw.2.2.2.2.1, raw.2.2.2.2.2⟩
  refine hheader.map e ?_ (fun _ _ => rfl) (fun _ => rfl) ?_
  · rintro raw ⟨-, -, -, hpool, -, -⟩
    exact hpool
  · rintro ⟨minor, major, pool, access, name⟩ hpool
    exact ⟨((), minor, major, pool, access, name),
      ⟨trivial, trivial, trivial, hpool, trivial, trivial⟩, rfl⟩

/-- The superclass is an index, which may be zero. -/
theorem superclass (access : Access) :
    Parses .u2 (superclassAt c access) (superclass c access) :=
  u2.before fun index => (unfed_indifferent.recording.superclassAt access index).2

/-- The interfaces are a table of indices. They are all read before any of them is put on record. -/
theorem interfaces (access : Access) :
    Parses Form.u2.table (interfacesOf c access) (interfaces c access) := by
  have hunfed : Recording c c fun {α} (m m' : Decode α) => m = m' ∧ Unfed .decoder m :=
    unfed_indifferent.recording
  have hinterface : Parses .u2 (interfaceAt c access) (Decode.u2 >>= interfaceAt c access) :=
    u2.before fun index => (hunfed.interfaceAt access index).2
  exact table fun n => (hinterface.listOf n).before fun types => (hunfed.keepInterfaces types).2

/-- **Everything after the name of a class**: the superclass, the interfaces, the fields, the
methods, and the attributes. -/
theorem classBody (orphan : Bool) :
    Parses RawBody.form (classBodyOf c orphan) (classBody c orphan) := by
  have hunfed : Recording c c fun {α} (m m' : Decode α) => m = m' ∧ Unfed .decoder m :=
    unfed_indifferent.recording
  have hlast : Unfed .decoder (modify fun s : Decoder => { s with last := none }) :=
    .modify fun _ _ => rfl
  have htell : Unfed .decoder (tell c .membersEnd) := (hunfed.announce rfl).2
  have hend (record : Record) := after htell fun _ => after hlast fun _ =>
    (attributes c (pure ()) .type record.access).before fun _ => (@unfed_indifferent c).finish.2
  have hbody := after hunfed.record.2 fun record => (superclass c record.access).bind fun _ =>
    (interfaces c record.access).bind fun _ => tableThen (field c).repeated fun _ =>
    after (hunfed.prepareWalks orphan).2 fun _ => tableThen (method c).repeated fun _ =>
    hend record
  let e (raw : UInt16 × List UInt16 × List RawMember × List RawMember × List RawAttribute) :
      RawBody := ⟨raw.1, raw.2.1, raw.2.2.1, raw.2.2.2.1, raw.2.2.2.2⟩
  refine hbody.map e ?_ (fun _ _ => rfl) (fun _ => rfl) ?_
  · rintro raw ⟨-, hinterfaces, hfields, hmethods, hattributes⟩
    exact ⟨hinterfaces, hfields, hmethods, hattributes⟩
  · rintro ⟨superclass, interfaces, fields, methods, attributes⟩ h
    exact ⟨(superclass, interfaces, fields, methods, attributes), ⟨trivial, h⟩, rfl⟩

/-- **A class is read from a layout**, when nobody listens. So whatever is true of what is done with
a layout is true of the bytes that it is written with, and of no others. -/
theorem classFile (namer : Namer) : Parses Layout.form
    (fun layout => some <$> classOf ⟨namer, none⟩ layout) (classFile ⟨namer, none⟩) := by
  have hfile := (classHeader ⟨namer, none⟩).bind fun header =>
    (classBody ⟨namer, none⟩ header.2).before fun record => .pure (some record)
  refine hfile.map (fun raw => ⟨raw.1, raw.2⟩) (fun _ h => h) (fun _ _ => rfl) ?_ ?_
  · rintro ⟨header, body⟩
    simp only [classOf, map_eq_pure_bind, bind_assoc]
  · rintro ⟨header, body⟩ h
    exact ⟨(header, body), h, rfl⟩

end Parses

/-- What is parsed from the body of an attribute is acted upon, if the body has that form. Of a body
that has not, nothing has to be shown, since then the step fails. -/
theorem leads_within {I : Decoder → Prop} (hinput : ∀ s input, I s → I { s with input := input })
    {form : Form ρ} {act : ρ → Decode Unit} {m : Decode Unit} {body : Bytes}
    (hm : Parses form act m) (hact : ∀ raw rest, form.Fits raw → body = form.encode raw ++ rest →
      Leads I (fun _ => I) (act raw)) : Leads I (fun _ => I) (within body m) := by
  intro s _ t hs hrun
  obtain ⟨u, hinner, rfl⟩ := ok_of_within hrun
  obtain ⟨raw, rest, hfits, hfront, hacted⟩ := (hm.eq_ok_iff _ _ _).1 hinner
  exact hinput u s.input (hact raw rest hfits hfront _ _ u (hinput s _ hs) hacted)

/-- A decoding that gives a record to nobody gives some record exactly if the class is read. -/
theorem map_some_eq_ok_iff {α : Type} (m : Decode α) (value : α) {s : Decoder} (t : Decoder) :
    (some <$> m) s = .ok (some value) t ↔ m s = .ok value t := by
  change EStateM.map some m s = _ ↔ _
  rw [EStateM.map]
  cases m s with
  | ok value u => simp
  | error fault u => simp

/-- A class that is accepted when nobody listens is written from a layout, and what its decoding
does is what is done with the layout. -/
theorem classOf_of_classFile {namer : Namer} {bytes : Bytes} {s t : Decoder} {record : Record}
    (hinput : s.input = .ofBytes bytes)
    (hrun : classFile ⟨namer, none⟩ s = .ok (some record) t) :
    ∃ layout trailing, Layout.form.Fits layout ∧ bytes = Layout.form.encode layout ++ trailing ∧
      classOf ⟨namer, none⟩ layout { s with input := .ofBytes [] } =
        .ok record { t with input := .ofBytes [] } := by
  obtain ⟨layout, trailing, hfits, hfront, hact⟩ :=
    ((Parses.classFile namer).eq_ok_iff _ _ t).1 hrun
  rw [hinput] at hfront
  refine ⟨layout, trailing, hfits, hfront, (map_some_eq_ok_iff _ _ _).1 ?_⟩
  exact ok_of_unfed ((Parses.classFile namer).unfed layout hfits) hact (.ofBytes [])

end Decode

/-- A decoding without a listener ends in a record if and only if the class is read. -/
theorem Session.decode_eq_ok_iff_classFile {options : Options} {bytes : Bytes}
    {session after : Session} {record : Record} :
    session.decode options bytes = (.ok record, after) ↔
    ∃ s, Decode.classFile ⟨options.namer, none⟩ (session.decoder options none bytes) =
      .ok (some record) s ∧ after = s.session.leave s.pool := by
  rw [Session.decode, Session.run]
  cases hrun : Decode.classFile ⟨options.namer, none⟩ (session.decoder options none bytes) with
  | error fault s =>
    constructor
    · intro h
      cases h
    · rintro ⟨_, h, -⟩
      cases h
  | ok outcome s =>
    cases outcome with
    | none =>
      constructor
      · intro h
        cases h
      · rintro ⟨_, h, -⟩
        cases h
    | some found =>
      constructor
      · intro h
        cases h
        exact ⟨s, rfl, rfl⟩
      · rintro ⟨_, h, rfl⟩
        cases h
        rfl

/-- Something that is known of the record in the end says that there is a record. It is how a run on
fixed bytes is turned into a statement about its record. -/
theorem Session.decode_of_map {options : Options} {bytes : Bytes} {session : Session} {α : Type}
    {f : Record → α} {a : α} (h : (session.decode options bytes).1.toOption.map f = some a) :
    ∃ record after, session.decode options bytes = (.ok record, after) ∧ f record = a := by
  obtain ⟨record, hrecord, hsame⟩ := Option.map_eq_some_iff.1 h
  exact ⟨record, _, Prod.ext (Except.eq_ok_of_toOption hrecord) rfl, hsame⟩

/-- The same if it is only known that the decoding succeeds: then there is a record, and a session
after it. -/
theorem Session.decode_of_isOk {options : Options} {bytes : Bytes} {session : Session}
    (h : (session.decode options bytes).1.isOk = true) :
    ∃ record after, session.decode options bytes = (.ok record, after) := by
  generalize session.decode options bytes = ended at h ⊢
  obtain ⟨outcome, after⟩ := ended
  cases outcome with
  | error fault => cases h
  | ok record => exact ⟨record, after, rfl⟩

/-- **Every accepted file is written from a layout**, and what its decoding does is what is
done with the layout. -/
theorem Session.decode_eq_ok_iff {options : Options} {bytes : Bytes} {session after : Session}
    {record : Record} : session.decode options bytes = (.ok record, after) ↔
    ∃ layout trailing, Layout.form.Fits layout ∧ bytes = Layout.form.encode layout ++ trailing ∧
      ∃ s, Decode.classOf ⟨options.namer, none⟩ layout (session.decoder options none []) =
        .ok record s ∧ after = s.session.leave s.pool := by
  have hparses := Decode.Parses.classFile options.namer
  rw [decode_eq_ok_iff_classFile]
  constructor
  · rintro ⟨s, hrun, rfl⟩
    obtain ⟨layout, trailing, hfits, hfront, hact⟩ := Decode.classOf_of_classFile rfl hrun
    exact ⟨layout, trailing, hfits, hfront, _, hact, rfl⟩
  · rintro ⟨layout, trailing, hfits, rfl, s, hact, rfl⟩
    rw [← Decode.map_some_eq_ok_iff] at hact
    let rest : Input := ⟨0 + (Layout.form.encode layout).length, trailing⟩
    have hrun := Decode.ok_of_unfed (hparses.unfed layout hfits) hact rest
    refine ⟨{ s with input := rest }, (hparses.eq_ok_iff _ _ _).2 ?_, rfl⟩
    exact ⟨layout, trailing, hfits, rfl, hrun⟩

end ClassFile
