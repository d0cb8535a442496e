import Mathlib.Order.CompletePartialOrder
import ClassFile.Proofs.Invariant
import ClassFile.Protocol

/-!
# Listeners are told in order

Each step of a decoding *emits* a language: a step that succeeds tells a word of it, and a step
that fails has told the beginning of one (`ClassFile.Decode.Emits`). Steps one after the other
emit the product of their languages, and a step that is repeated emits the star. References and
attributes emit languages that are closed under products, so that the readers of attributes
are followed in lockstep with themselves; the parts of a class are put together one by one.

What is told of a whole class (`ClassFile.Session.run_protocol`) follows, for every listener.
-/

namespace ClassFile

open scoped Computability

/-! ### Beginnings of words -/

namespace Protocol

variable {L M : Language EventKind} {kind : EventKind} {word : List EventKind}

/-- There is a word in the language. -/
class Possible (L : Language EventKind) : Prop where
  exists_word : ∃ word, word ∈ L

instance : Possible 1 := ⟨[], Language.nil_mem_one⟩

instance : Possible (one kind) := ⟨[kind], rfl⟩

instance : Possible L∗ := ⟨[], Language.nil_mem_kstar L⟩

instance : Possible (1 + L) := ⟨[], .inl rfl⟩

instance [Possible L] [Possible M] : Possible (L * M) := by
  obtain ⟨first, hfirst⟩ := Possible.exists_word (L := L)
  obtain ⟨second, hsecond⟩ := Possible.exists_word (L := M)
  exact ⟨first ++ second, Language.append_mem_mul hfirst hsecond⟩

instance : Possible references := inferInstanceAs (Possible (one .reference)∗)

instance : Possible details := inferInstanceAs (Possible (one .reference + one .attribute)∗)

instance : Possible (member kind) := inferInstanceAs (Possible (one kind * details))

instance : Possible outline :=
  inferInstanceAs (Possible ((1 + references * one .superclass) *
    ((1 + references * one .interfaces) * ((member .field)∗ * (member .method)∗))))

instance : Possible body := inferInstanceAs (Possible (outline * (one .membersEnd * details)))

/-- Whoever has told a whole word has told the beginning of one. So what is said of beginnings holds
of decodings that end as they should, too. -/
theorem le_begun (L : Language EventKind) : L ≤ begun L := by
  intro word hword
  exact ⟨[], by rwa [List.append_nil]⟩

theorem one_le_begun [Possible L] : 1 ≤ begun L := by
  rintro _ rfl
  exact Possible.exists_word (L := L)

/-- A language with more words has more beginnings. All bounds for what a failing decoding tells are
carried from the parts to the whole by this. -/
theorem begun_mono (h : L ≤ M) : begun L ≤ begun M := fun _ ⟨rest, hrest⟩ => ⟨rest, h hrest⟩

/-- What breaks off in the first of two parts. The second part must have a word, or there would be
no whole to break off from. -/
theorem begun_le_begun_mul [Possible M] : begun L ≤ begun (L * M) := by
  rintro word ⟨rest, hrest⟩
  obtain ⟨second, hsecond⟩ := Possible.exists_word (L := M)
  exact ⟨rest ++ second, by
    rw [← List.append_assoc]
    exact Language.append_mem_mul hrest hsecond⟩

/-- What breaks off in the second of two parts has the whole first part in front of it. -/
theorem mul_begun_le_begun_mul : L * begun M ≤ begun (L * M) := by
  rintro _ ⟨first, hfirst, second, ⟨rest, hrest⟩, rfl⟩
  exact ⟨rest, by
    rw [List.append_assoc]
    exact Language.append_mem_mul hfirst hrest⟩

/-- What breaks off somewhere in two parts breaks off in the first one, or it has the first one
whole and breaks off in the second. -/
theorem begun_mul_le : begun (L * M) ≤ begun L + L * begun M := by
  rintro word ⟨rest, first, hfirst, second, hsecond, happend⟩
  obtain ⟨more, rfl, hrest⟩ | ⟨more, rfl, hsecond'⟩ := List.append_eq_append_iff.1 happend
  · exact .inr (Language.append_mem_mul hfirst ⟨rest, by rwa [← hrest]⟩)
  · exact .inl ⟨more, hfirst⟩

theorem begun_one_le (kind : EventKind) : begun (one kind) ≤ 1 + one kind := by
  rintro word ⟨rest, hword⟩
  cases word with
  | nil => exact .inl rfl
  | cons first word =>
    obtain ⟨rfl, hrest⟩ := List.cons_eq_cons.1 hword
    rw [(List.append_eq_nil_iff.1 hrest).1]
    exact .inr rfl

/-- What breaks off in a series of words of one event each is a shorter series: there is no middle
of such a word in which it could break off. -/
theorem begun_kstar_le (h : begun L ≤ 1 + L) : begun L∗ ≤ L∗ := by
  have hpart : begun L ≤ L∗ := h.trans (add_le one_le_kstar le_kstar)
  have hmore : L * L∗ ≤ L∗ := mul_kstar_le_kstar
  rintro word ⟨rest, parts, hparts, hmem⟩
  induction parts generalizing word with
  | nil =>
    rw [(List.append_eq_nil_iff.1 hparts).1]
    exact Language.nil_mem_kstar L
  | cons part parts ih =>
    have hfirst : part ∈ L := hmem part List.mem_cons_self
    -- the word ends within the first part, or it goes on behind it
    obtain ⟨more, rfl, -⟩ | ⟨more, rfl, hrest⟩ := List.append_eq_append_iff.1 hparts
    · exact hpart ⟨more, hfirst⟩
    · refine hmore (Language.append_mem_mul hfirst ?_)
      exact ih hrest.symm fun y hy => hmem y (List.mem_cons_of_mem part hy)

theorem begun_references_le : begun references ≤ references :=
  begun_kstar_le (begun_one_le .reference)

/-- Any number of references, and again any number of them, are any number of references. So steps
that only refer to types can be put in front of each other. -/
theorem references_mul_le (L : Language EventKind) :
    references * (references * L) ≤ references * L := by
  rw [← mul_assoc, references, kstar_mul_kstar]

/-- A member has what is told before its attributes, and what they say. -/
theorem member_mul_le (kind : EventKind) :
    one kind * references * details ≤ member kind := by
  rw [mul_assoc]
  refine mul_le_mul_right ?_ _
  calc references * details ≤ details * details := mul_le_mul_left (kstar_mono le_self_add) _
    _ = details := kstar_mul_kstar _

/-- What is told of a file whose header is malformed is the version or nothing, and then any number
of references. That is how far its decoding can have come. -/
theorem begun_opening_le : begun opening ≤ 1 + opening := by
  have hversion : one .version ≤ opening := by
    calc one .version = one .version * 1 := (mul_one _).symm
      _ ≤ one .version * references := mul_le_mul_right one_le_kstar _
  calc begun opening ≤ begun (one .version) + one .version * begun references := begun_mul_le
    _ ≤ (1 + one .version) + one .version * references :=
      add_le_add (begun_one_le _) (mul_le_mul_right begun_references_le _)
    _ ≤ 1 + opening := add_le (add_le_add_right hversion 1) le_add_self

/-! ### Kinds of events that do not occur -/

/-- No word of the language has an event of the kind. -/
def Lacks (kind : EventKind) (L : Language EventKind) : Prop := ∀ word ∈ L, kind ∉ word

namespace Lacks

theorem epsilon : Lacks kind 1 := by
  rintro _ rfl
  exact List.not_mem_nil

theorem one {other : EventKind} (h : kind ≠ other) : Lacks kind (one other) := by
  rintro _ rfl
  exact List.mem_singleton.not.2 h

theorem add (hL : Lacks kind L) (hM : Lacks kind M) : Lacks kind (L + M) := by
  rintro word (hword | hword)
  · exact hL word hword
  · exact hM word hword

theorem mul (hL : Lacks kind L) (hM : Lacks kind M) : Lacks kind (L * M) := by
  rintro _ ⟨first, hfirst, second, hsecond, rfl⟩ hkind
  rcases List.mem_append.1 hkind with hkind | hkind
  · exact hL first hfirst hkind
  · exact hM second hsecond hkind

theorem kstar (hL : Lacks kind L) : Lacks kind L∗ := by
  rintro _ ⟨parts, rfl, hparts⟩ hkind
  obtain ⟨part, hpart, hkind⟩ := List.mem_flatten.1 hkind
  exact hL part (hparts part hpart) hkind

theorem begun (hL : Lacks kind L) : Lacks kind (begun L) := by
  rintro word ⟨rest, hrest⟩ hkind
  exact hL _ hrest (List.mem_append_left rest hkind)

theorem references (h : kind ≠ .reference) : Lacks kind references := (one h).kstar

theorem details (h : kind ≠ .reference) (h' : kind ≠ .attribute) : Lacks kind details :=
  ((one h).add (one h')).kstar

theorem outline (h : kind ∉ [.superclass, .interfaces, .field, .method, .reference, .attribute]) :
    Lacks kind outline := by
  simp only [List.mem_cons, List.not_mem_nil, or_false, not_or] at h
  obtain ⟨hsuperclass, hinterfaces, hfield, hmethod, hreference, hattribute⟩ := h
  have hsupertype {other : EventKind} (h : kind ≠ other) :
      Lacks kind (1 + Protocol.references * Protocol.one other) :=
    epsilon.add ((references hreference).mul (one h))
  have hmember {other : EventKind} (h : kind ≠ other) : Lacks kind (member other) :=
    (one h).mul (details hreference hattribute)
  exact (hsupertype hsuperclass).mul ((hsupertype hinterfaces).mul
    ((hmember hfield).kstar.mul (hmember hmethod).kstar))

/-- An event that comes between two parts without events of its kind comes once. This is how the two
events that are told once, the end of the members and the end of the class, are counted. -/
theorem count_eq_one (hL : Lacks kind L) (hM : Lacks kind M)
    (h : word ∈ L * (Protocol.one kind * M)) : word.count kind = 1 := by
  obtain ⟨first, hfirst, _, ⟨_, rfl, second, hsecond, rfl⟩, rfl⟩ := h
  rw [List.count_append, List.count_append, List.count_eq_zero_of_not_mem (hL first hfirst),
    List.count_eq_zero_of_not_mem (hM second hsecond), List.count_singleton_self]

end Lacks

/-! ### The start and the end -/

/-- If more may be told inside of a class then more may be told of the class, the start and the end
included. -/
theorem around_mono (h : L ≤ M) : around L ≤ around M :=
  mul_le_mul_right (mul_le_mul_right (mul_le_mul_left h _) _) _

/-- Whatever comes of a decoding, its listener is told what it may be told of a malformed file. -/
theorem words_le (outcome : Except Fault (Option Record)) :
    words outcome ≤ 1 + opening + around (begun body) := by
  cases outcome with
  | error fault => exact le_rfl
  | ok result =>
    cases result with
    | none => exact (around_mono one_le_begun).trans le_add_self
    | some record => exact (around_mono (le_begun body)).trans le_add_self

theorem Lacks.opening (hversion : kind ≠ .version) (hreference : kind ≠ .reference) :
    Lacks kind opening := (one hversion).mul (references hreference)

/-- A listener that is told of the start of a class is told of its end as the last thing, however
the decoding between the two broke off. -/
theorem ends_of_mem_around (hL : Lacks .classEnd L) (h : word ∈ around L) :
    .classStart ∈ word ∧ word.count .classEnd = 1 ∧ word.getLast? = some .classEnd := by
  have hsplit : around L = opening * (one .classStart * L) * (one .classEnd * 1) := by
    simp only [around, mul_assoc, mul_one]
  have hbefore : Lacks .classEnd (opening * (one .classStart * L)) :=
    (Lacks.opening (by decide) (by decide)).mul ((Lacks.one (by decide)).mul hL)
  refine ⟨?_, hbefore.count_eq_one .epsilon (hsplit ▸ h), ?_⟩
  · obtain ⟨first, -, _, ⟨_, rfl, rest, -, rfl⟩, rfl⟩ := h
    exact List.mem_append_right first List.mem_cons_self
  · obtain ⟨first, -, _, ⟨start, -, _, ⟨inside, -, _, rfl, rfl⟩, rfl⟩, rfl⟩ := h
    change (first ++ (start ++ (inside ++ [EventKind.classEnd]))).getLast? = _
    rw [← List.append_assoc, ← List.append_assoc, List.getLast?_concat]

/-- **The start of a class is told together with its end**, which comes once and last. -/
theorem ends_of_mem_words {outcome : Except Fault (Option Record)} (h : word ∈ words outcome) :
    (.classStart ∈ word → word.count .classEnd = 1 ∧ word.getLast? = some .classEnd) ∧
      (.classEnd ∈ word → .classStart ∈ word) := by
  rcases words_le outcome h with hword | hword
  -- the class has not started
  · have hnone {kind : EventKind} (hversion : kind ≠ .version) (hreference : kind ≠ .reference) :
        kind ∉ word := Lacks.epsilon.add (.opening hversion hreference) word hword
    exact ⟨fun h => absurd h (hnone (by decide) (by decide)),
      fun h => absurd h (hnone (by decide) (by decide))⟩
  -- the class has started
  · have hbody : Lacks .classEnd (begun body) := by
      refine .begun (.mul (.outline (by decide)) (.mul (.one (by decide)) ?_))
      exact .details (by decide) (by decide)
    obtain ⟨hstart, hends⟩ := ends_of_mem_around hbody hword
    exact ⟨fun _ => hends, fun _ => hstart⟩

/-- The end of the members of a class that is decoded to its end is told once: neither the members
in front of it nor the attributes behind it tell of it. -/
theorem count_membersEnd {record : Record} (h : word ∈ words (.ok (some record))) :
    word.count .membersEnd = 1 := by
  have hsplit : around body =
      opening * (one .classStart * outline) * (one .membersEnd * (details * one .classEnd)) := by
    simp only [around, body, mul_assoc]
  have hbefore : Lacks .membersEnd (opening * (one .classStart * outline)) :=
    (Lacks.opening (by decide) (by decide)).mul
      ((Lacks.one (by decide)).mul (.outline (by decide)))
  have hafter : Lacks .membersEnd (details * one .classEnd) :=
    (Lacks.details (by decide) (by decide)).mul (.one (by decide))
  exact hbefore.count_eq_one hafter (hsplit ▸ h)

end Protocol

/-! ### What a listener was told of -/

namespace Listener.Told

variable {listener : Listener} {notes later last : Array Note} {events further : List Event}

/-- What was told in a row, and what was told after that, was told in a row. Notes are only added
to, so the middle notes need not be looked at again. -/
theorem append (h : listener.Told notes events later) (h' : listener.Told later further last) :
    listener.Told notes (events ++ further) last := by
  induction h with
  | nil => exact h'
  | cons session _ ih => exact .cons session (ih h')

/-- The events that a candid listener was told of are those that its notes speak of, in their order.
So the notes of a decoding, which can be looked at, stand for what was told. -/
theorem of_candid (hcandid : listener.Candid) (h : listener.Told notes events later) :
    later.toList.filterMap Note.event? = notes.toList.filterMap Note.event? ++ events := by
  induction h with
  | nil notes => rw [List.append_nil]
  | @cons notes later event events session _ ih =>
    have hown : (listener.hears notes event session).2.filterMap Note.event? = [] :=
      List.filterMap_eq_nil_iff.2 (hcandid notes event session)
    rw [ih, Array.toList_append, Array.toList_push, List.filterMap_append, hown,
      List.filterMap_append, List.append_nil, List.append_assoc]
    rfl

end Listener.Told

/-- Between two states the listener was told of events whose kinds form a word of the
language. -/
def Decoder.Emits (listener : Listener) (L : Language EventKind) (s t : Decoder) : Prop :=
  ∃ events : List Event, events.map Event.kind ∈ L ∧ listener.Told s.notes events t.notes

namespace Decoder.Emits

variable {listener : Listener} {L M : Language EventKind} {s t u : Decoder}

theorem of_eq (h : t.notes = s.notes) : s.Emits listener 1 t :=
  ⟨[], rfl, h ▸ .nil t.notes⟩

theorem mono (h : s.Emits listener L t) (hle : L ≤ M) : s.Emits listener M t := by
  obtain ⟨events, hword, htold⟩ := h
  exact ⟨events, hle hword, htold⟩

/-- What is told in the first stretch is followed by what is told in the second, so the languages
are multiplied. -/
theorem trans (h : s.Emits listener L t) (h' : t.Emits listener M u) :
    s.Emits listener (L * M) u := by
  obtain ⟨events, hword, htold⟩ := h
  obtain ⟨further, hword', htold'⟩ := h'
  refine ⟨events ++ further, ?_, htold.append htold'⟩
  rw [List.map_append]
  exact Language.append_mem_mul hword hword'

/-- Telling a listener of an event. -/
theorem told {c : Context} (hlistener : c.listener = some listener) (event : Event)
    (s : Decoder) : s.Emits listener (Protocol.one event.kind) (s.told c event) := by
  refine ⟨[event], rfl, ?_⟩
  rw [Decoder.told, hlistener]
  exact .cons s.session (.nil _)

end Decoder.Emits

/-! ### Steps one after the other -/

namespace Decode

/-- **The step emits the language**: it tells a word of it if it succeeds, and the beginning of
one if it fails. -/
structure Emits (listener : Listener) (L : Language EventKind) {α : Type} (m : Decode α) :
    Prop where
  ok {s t : Decoder} {a : α} : m s = .ok a t → s.Emits listener L t
  error {s t : Decoder} {fault : Fault} :
    m s = .error fault t → s.Emits listener (Protocol.begun L) t

namespace Emits

variable {listener : Listener} {L M : Language EventKind} {α β : Type}

/-- A step that tells words of a smaller language tells words of a greater one. The readers of
attributes are all put into one language by this. -/
theorem mono {m : Decode α} (h : Emits listener L m) (hle : L ≤ M) : Emits listener M m where
  ok hrun := (h.ok hrun).mono hle
  error hrun := (h.error hrun).mono (Protocol.begun_mono hle)

/-- A step that leaves the notes as they are tells nothing. Most steps are of this kind, for they
change what a decoder keeps for itself. -/
theorem of_keeps {m : Decode α}
    (h : ∀ notes, Keeps (fun s => s.notes = notes) (fun _ => True) m) : Emits listener 1 m where
  ok {s t a} hrun := by
    have hkeeps := h s.notes s rfl
    rw [hrun] at hkeeps
    exact .of_eq hkeeps
  error {s t fault} hrun := by
    have hkeeps := h s.notes s rfl
    rw [hrun] at hkeeps
    exact (Decoder.Emits.of_eq hkeeps.1).mono (Protocol.le_begun 1)

/-- A step that tells nothing, where there can be any number of each word. -/
theorem star {m : Decode α} (h : Emits listener 1 m) : Emits listener L∗ m := h.mono one_le_kstar

theorem pure (a : α) : Emits listener 1 (Pure.pure a) := of_keeps fun _ => .pure a

theorem throw [Protocol.Possible L] (fault : Fault) :
    Emits listener L (MonadExcept.throw fault : Decode α) where
  ok hrun := by cases hrun
  error hrun := by
    cases hrun
    exact (Decoder.Emits.of_eq rfl).mono Protocol.one_le_begun

/-- A step and what follows tell a word of the first language and one of the second. If the first
one fails its word breaks off, and so the second language must have some word. -/
theorem bind [Protocol.Possible M] {m : Decode α} {f : α → Decode β} (hm : Emits listener L m)
    (hf : ∀ a, Emits listener M (f a)) : Emits listener (L * M) (m >>= f) where
  ok {s u b} hrun := by
    obtain ⟨a, t, hfirst, hsecond⟩ := EStateM.ok_of_bind hrun
    exact (hm.ok hfirst).trans ((hf a).ok hsecond)
  error {s u fault} hrun := by
    obtain hfirst | ⟨a, t, hfirst, hrest⟩ := EStateM.error_of_bind hrun
    · exact (hm.error hfirst).mono Protocol.begun_le_begun_mul
    · exact ((hm.ok hfirst).trans ((hf a).error hrest)).mono Protocol.mul_begun_le_begun_mul

theorem after [Protocol.Possible L] {m : Decode α} {f : α → Decode β} (hm : Emits listener 1 m)
    (hf : ∀ a, Emits listener L (f a)) : Emits listener L (m >>= f) :=
  (hm.bind hf).mono (one_mul L).le

theorem before {m : Decode α} {f : α → Decode β} (hm : Emits listener L m)
    (hf : ∀ a, Emits listener 1 (f a)) : Emits listener L (m >>= f) :=
  (hm.bind hf).mono (mul_one L).le

/-- Two steps in a language where there can be any number of each word. -/
theorem join {m : Decode α} {f : α → Decode β} (hm : Emits listener L∗ m)
    (hf : ∀ a, Emits listener L∗ (f a)) : Emits listener L∗ (m >>= f) :=
  (hm.bind hf).mono (kstar_mul_kstar L).le

theorem look {k : Decoder → Decode α} (h : ∀ s, Emits listener L (k s)) :
    Emits listener L (get >>= k) where
  ok {s _ _} hrun := (h s).ok hrun
  error {s _ _} hrun := (h s).error hrun

theorem repeated (hm : Emits listener L (m : Decode Unit)) (n : Nat) :
    Emits listener L∗ (repeated n m) := by
  induction n with
  | zero => exact (pure ()).star
  | succ n ih => exact (hm.bind fun _ => ih).mono mul_kstar_le_kstar

/-- Whether bytes are read from the file or from the body of an attribute makes no difference to
what is told. -/
theorem within {bytes : Bytes} {m : Decode α} (hm : Emits listener L m) :
    Emits listener L (within bytes m) where
  ok {s t a} hrun := by
    obtain ⟨u, hbody, rfl⟩ := ok_of_within hrun
    have hemits := hm.ok hbody
    exact hemits
  error {s t fault} hrun := by
    rw [Decode.within] at hrun
    cases hbody : m { s with input := .ofBytes bytes } with
    | ok a u =>
      rw [hbody] at hrun
      cases hrun
    | error other u =>
      rw [hbody] at hrun
      cases hrun
      have hemits := hm.error hbody
      exact hemits

/-- A step that is tried out may break off in the middle of a word. In a language that has the
beginnings of its words, this can be passed over. -/
theorem succeeds {m : Decode Unit} (hm : Emits listener L m) (hL : Protocol.begun L ≤ L) :
    Emits listener L (succeeds m) where
  ok {s t a} hrun := by
    rw [Decode.succeeds] at hrun
    cases hbody : m s with
    | ok _ u =>
      rw [hbody] at hrun
      cases hrun
      exact hm.ok hbody
    | error fault u =>
      rw [hbody] at hrun
      cases hrun
      exact (hm.error hbody).mono hL
  error {s t fault} hrun := by
    rw [Decode.succeeds] at hrun
    cases hbody : m s <;> rw [hbody] at hrun <;> cases hrun

/-! ### Steps that tell nothing -/

theorem read (reader : Reader α) : Emits listener 1 (read reader) :=
  of_keeps fun _ => .read (fun _ _ hs => hs) fun _ _ _ _ => trivial

theorem u2 : Emits listener 1 u2 := read _

theorem count : Emits listener 1 count := after u2 fun _ => pure _

theorem ask (question : Pool → Except Fault α) : Emits listener 1 (ask question) :=
  of_keeps fun _ => .ask fun _ _ _ => trivial

theorem modify {f : Decoder → Decoder} (h : ∀ s, (f s).notes = s.notes) :
    Emits listener 1 (modify f) :=
  of_keeps fun _ => .modify fun s hs => (h s).trans hs

/-- To look at the record tells nothing. -/
theorem record : Emits listener 1 record := by
  refine look fun s => ?_
  cases s.record with
  | some record => exact pure record
  | none => exact throw .noHeader

theorem updateRecord (f : Record → Record) : Emits listener 1 (updateRecord f) :=
  after record fun _ => modify fun _ => rfl

theorem updateMember (f : Member → Member) : Emits listener 1 (updateMember f) := by
  refine modify fun s => ?_
  cases s.last <;> rfl

theorem packageOf (c : Context) (type : TypeName) : Emits listener 1 (packageOf c type) :=
  of_keeps fun _ _ hs => hs

theorem exposePackage (package : Package) (access : Access) :
    Emits listener 1 (exposePackage package access) := by
  refine modify fun s => ?_
  split <;> rfl

/-- The package of an annotation's type is exposed without the listener being told, in contrast to a
reference. -/
theorem expose (c : Context) (type : TypeName) (access : Access) :
    Emits listener 1 (expose c type access) := by
  refine look fun s => ?_
  split
  · refine after (packageOf c type) fun package => ?_
    split
    · exact pure ()
    · exact exposePackage package access
  · exact pure ()

theorem memberHeader : Emits listener 1 memberHeader := by
  refine after u2 fun access => after u2 fun nameIndex => after (ask _) fun name => ?_
  exact after u2 fun descriptorIndex => after (ask _) fun descriptor => pure _

theorem prepareWalks (orphan : Bool) : Emits listener 1 (prepareWalks orphan) := by
  refine after record fun record => modify fun s => ?_
  dsimp only
  split <;> rfl

theorem finish : Emits listener 1 finish := by
  refine look fun s => ?_
  cases s.record with
  | some record => exact pure _
  | none => exact throw .noRecord

theorem checkMagic : Emits listener 1 checkMagic := by
  refine after (read _) fun found => ?_
  split
  · exact throw _
  · exact pure ()

theorem readPool : Emits listener 1 readPool := by
  refine of_keeps fun notes s hs => ?_
  rw [Decode.readPool]
  cases Pool.read ⟨s.input, s.pool⟩ with
  | ok _ filled => exact hs
  | error fault filled => exact ⟨hs, trivial⟩

/-! ### References and attributes -/

section Listening

variable {c : Context} (hlistener : c.listener = some listener)
include hlistener

theorem tell (event : Event) : Emits listener (Protocol.one event.kind) (tell c event) where
  ok hrun := by
    cases hrun
    exact .told hlistener event _
  error hrun := by cases hrun

/-- A reference, in a language where there can be any number of them. Primitive types are not told
of, and so it may also be none. -/
theorem refer (h : Protocol.one .reference ≤ L) (type : TypeName) (access : Access) :
    Emits listener L∗ (refer c type access) := by
  rw [Decode.refer]
  split
  · exact (pure ()).star
  refine after (packageOf c _) fun package => ?_
  split
  · exact (pure ()).star
  refine after (modify fun _ => rfl) fun _ => after (exposePackage package access) fun _ => ?_
  refine after (modify fun _ => rfl) fun _ => ?_
  exact (tell hlistener (.referred type.referent access)).mono (h.trans le_kstar)

theorem naming (h : Protocol.one .reference ≤ L) :
    Naming c c fun m _ => Emits listener L∗ m where
  pure a := (pure a).star
  bind := join
  throw _ := throw _
  ask _ := (ask _).star
  named type := (tell hlistener (.named type)).mono (h.trans le_kstar)
  refer := refer hlistener h

theorem pooled (h : Protocol.one .reference ≤ L) :
    Pooled c c fun m _ => Emits listener L∗ m where
  toReferring := (naming hlistener h).referring
  constant index := by
    refine after (of_keeps fun _ _ hs => hs) fun name => ?_
    cases name with
    | some name => exact refer hlistener h _ 0
    | none => exact (pure ()).star
  lookPool hk := look fun s => hk s s (.refl _)

/-- References, where there can be any number of them. -/
theorem references_pooled : Pooled c c fun m _ => Emits listener Protocol.references m :=
  pooled hlistener le_rfl

/-- The readers of attributes tell of nothing but references and attributes. -/
theorem elementary : Elementary c c fun m _ => Emits listener Protocol.details m where
  toNaming := naming hlistener le_self_add
  take n := (read _).star
  within := within
  look hk := look fun s => hk s s rfl
  constant := (pooled hlistener le_self_add).constant
  call index := by
    dsimp only [handlers]
    split
    · refine after (ask _) fun method => ?_
      exact (tell hlistener _).mono (le_add_self.trans le_kstar)
    · exact (pure ()).star
  tell {event} hdetail := by
    refine (tell hlistener event).mono (le_trans ?_ le_kstar)
    cases event <;> first | exact le_add_self | cases hdetail
  expose type access := (expose c type access).star
  attempt index access := by
    refine (succeeds ((references_pooled hlistener).referDescriptor index access)
      Protocol.begun_references_le).mono (kstar_mono le_self_add)
  updateRecord _ := (updateRecord _).star
  updateMember _ := (updateMember _).star

/-- All readers of attributes, by induction over them, from the few steps that they are made of. -/
theorem lockstep : Lockstep c c fun m _ => Emits listener Protocol.details m :=
  (elementary hlistener).lockstep

theorem signatureAttribute (site : Site) (access : Access) :
    Emits listener Protocol.details (signatureAttribute c site access) :=
  (lockstep hlistener).signatureAttribute (fun _ => (updateMember _).star) site access

theorem attributes {onCode : Decode Unit} (hcode : Emits listener Protocol.details onCode)
    (site : Site) (access : Access) :
    Emits listener Protocol.details (attributes c onCode site access) :=
  @Lockstep.attributes _ _ _ (lockstep hlistener) (signatureAttribute hlistener) onCode onCode hcode
    site access

theorem attributes_outside (site : Site) (access : Access) :
    Emits listener Protocol.details (Decode.attributes c (Pure.pure ()) site access) :=
  attributes hlistener ((pure ()).star) site access

/-- A method body tells of references and attributes, whether they are in its code, in its handlers,
or in its own attributes. -/
theorem code : Emits listener Protocol.details (code c) :=
  (lockstep hlistener).code (signatureAttribute hlistener) fun code => look fun s =>
    (lockstep hlistener).walk s.targets code

/-! ### The parts of a class -/

/-- A superclass is told of after it is referred to. Where there is none nothing is told. -/
theorem superclass (access : Access) :
    Emits listener (1 + Protocol.references * Protocol.one .superclass)
      (superclass c access) := by
  refine after u2 fun index => ?_
  rw [superclassAt]
  split
  · refine after (after (ask _) fun _ => pure _) fun type => mono ?_ le_add_self
    refine bind (refer hlistener le_rfl type access) fun _ => ?_
    exact before (tell hlistener (.superclass type)) fun _ => updateRecord _
  · exact (pure ()).mono le_self_add

/-- Interfaces are told of after they are all referred to, unless there are none. -/
theorem interfaces (access : Access) :
    Emits listener (1 + Protocol.references * Protocol.one .interfaces)
      (interfaces c access) := by
  have hinterface : Emits listener Protocol.references
      (Decode.u2 >>= fun index => interfaceAt c access index) := by
    refine after u2 fun index => after (after (ask _) fun _ => pure _) fun type => ?_
    exact before (refer hlistener le_rfl type access) fun _ => pure type
  have hlist (n : Nat) : Emits listener Protocol.references
      (listOf n (Decode.u2 >>= fun index => interfaceAt c access index)) := by
    induction n with
    | zero => exact (pure []).star
    | succ n ih => exact join hinterface fun _ => before ih fun _ => pure _
  refine after count fun n => ?_
  cases n with
  | zero =>
    refine mono ?_ le_self_add
    rw [listOf, pure_bind]
    exact updateRecord _
  | succ n =>
    refine mono ?_ le_add_self
    rw [listOf, bind_assoc]
    have hkeep (head : TypeName) : Emits listener (Protocol.references * Protocol.one .interfaces)
        (listOf n (Decode.u2 >>= fun index => interfaceAt c access index) >>= fun tail =>
          keepInterfaces c (head :: tail)) :=
      (hlist n).bind fun tail => before (tell hlistener (.interfaces (head :: tail))) fun _ =>
        updateRecord _
    refine (hinterface.bind fun head => ?_).mono (Protocol.references_mul_le _)
    rw [bind_assoc]
    exact hkeep head

/-- What is told of a field before its attributes: the field, and then the types that its descriptor
names. -/
theorem openField (header : MemberHeader) :
    Emits listener (Protocol.one .field * Protocol.references) (openField c header) := by
  have hrest : Emits listener (Protocol.one .field * Protocol.references)
      (Decode.tell c (.field (.field header.access header.name header.descriptor)) >>= fun _ =>
        referDescriptor c header.descriptorIndex header.access >>= fun _ =>
        Decode.updateRecord (fun record => { record with
          fields := record.fields.push (.field header.access header.name header.descriptor) }) >>=
          fun _ => modifyGet fun s => ((), { s with last := some .field })) := by
    refine bind (tell hlistener (.field _)) fun _ => ?_
    refine before ((references_pooled hlistener).referDescriptor _ _) fun _ => ?_
    exact after (updateRecord _) fun _ => modify fun _ => rfl
  rw [Decode.openField]
  split
  · exact after (modify fun _ => rfl) fun _ => hrest
  · exact hrest

/-- What is told of a method before its attributes: the method, and then the types that its
descriptor names. -/
theorem openMethod (header : MemberHeader) :
    Emits listener (Protocol.one .method * Protocol.references) (openMethod c header) := by
  rw [Decode.openMethod]
  cases Signature.arguments header.descriptor with
  | error fault => exact throw fault
  | ok arguments =>
    refine after (pure arguments) fun _ => bind (tell hlistener (.method _)) fun _ => ?_
    refine before ((references_pooled hlistener).referDescriptor _ _) fun _ => ?_
    exact after (updateRecord _) fun _ => modify fun _ => rfl

/-- A field is told of when its header was read, and then what its attributes say, which belongs to
it. -/
theorem field : Emits listener (Protocol.member .field) (field c) := by
  refine after memberHeader fun header => ?_
  refine ((openField hlistener header).bind fun _ => ?_).mono (Protocol.member_mul_le .field)
  exact attributes_outside hlistener .field header.access

/-- A method, and what its attributes and its body say. -/
theorem method : Emits listener (Protocol.member .method) (method c) := by
  refine after memberHeader fun header => ?_
  refine ((openMethod hlistener header).bind fun _ => ?_).mono (Protocol.member_mul_le .method)
  refine look fun s => attributes hlistener ?_ _ header.access
  split
  · exact code hlistener
  · exact (pure ()).star

/-- **Everything after the name of a class** is told in the order that the grammar gives:
supertypes, fields, methods, the end of the members, and what the attributes of the class say. -/
theorem classBody (orphan : Bool) : Emits listener Protocol.body (classBody c orphan) := by
  rw [Protocol.body, Protocol.outline, mul_assoc, mul_assoc, mul_assoc]
  refine after record fun record => (superclass hlistener record.access).bind fun _ => ?_
  refine (interfaces hlistener record.access).bind fun _ => ?_
  refine after count fun n => ((field hlistener).repeated n).bind fun _ => ?_
  refine after (prepareWalks orphan) fun _ => ?_
  refine after count fun n => ((method hlistener).repeated n).bind fun _ => ?_
  refine (tell hlistener .membersEnd).bind fun _ => after (modify fun _ => rfl) fun _ => ?_
  exact before (attributes_outside hlistener .type record.access) fun _ => finish

/-- **Everything up to the name of a class**: the version is told of first, and then what the pool
names and the class itself are referred to. -/
theorem classHeader : Emits listener Protocol.opening (classHeader c) := by
  have hrefs := references_pooled hlistener
  rw [Protocol.opening]
  refine after checkMagic fun _ => after u2 fun minor => after u2 fun major => ?_
  refine (tell hlistener (.version minor major)).bind fun _ => after readPool fun _ => ?_
  refine join hrefs.referPool fun _ => look fun s => ?_
  refine after u2 fun access => after u2 fun index => ?_
  refine after (after (ask _) fun _ => pure _) fun name => before ?_ fun _ => pure _
  refine after (modify fun _ => rfl) fun _ => ?_
  exact before (refer hlistener le_rfl _ _) fun _ => modify fun _ => rfl

end Listening

end Emits

/-- What is told of a class whose header was told of: its start, and in the end its end. The end is
told also if the decoding between the two fails, for it is told on the way out. -/
theorem emits_around {c : Context} {listener : Listener} (hlistener : c.listener = some listener)
    {L : Language EventKind} {s t u : Decoder} {record : Record}
    (hheader : s.Emits listener Protocol.opening t)
    (hinside : (t.told c (.classStart record)).Emits listener L u) :
    s.Emits listener (Protocol.around L) (u.told c .classEnd) := by
  have hstart := Decoder.Emits.told hlistener (.classStart record) t
  have hend := Decoder.Emits.told hlistener .classEnd u
  exact hheader.trans (hstart.trans (hinside.trans hend))

/-- **What is told of a class file**, by what comes of it. -/
theorem classFile_emits {c : Context} {listener : Listener}
    (hlistener : c.listener = some listener) (s : Decoder) :
    match classFile c s with
    | .ok result t => s.Emits listener (Protocol.words (.ok result)) t
    | .error fault t => s.Emits listener (Protocol.words (.error fault)) t := by
  have hheader : Emits listener Protocol.opening (classHeader c) := .classHeader hlistener
  cases hrun : classHeader c s with
  | error fault t =>
    have hfile : classFile c s = .error fault t := EStateM.bind_of_error hrun
    rw [hfile]
    exact (hheader.error hrun).mono (Protocol.begun_opening_le.trans le_self_add)
  | ok header t =>
    obtain ⟨record, orphan⟩ := header
    let u := t.told c (.classStart record)
    -- from the start of the class on, its end is told of whatever happens
    have hfile : classFile c s =
        ending (if listener.admits u.notes record u.session then some <$> classBody c orphan
          else pure none) (Decoder.told c .classEnd) u := by
      refine EStateM.bind_eq hrun ?_
      dsimp only
      rw [hlistener]
      rfl
    rw [hfile, ending]
    by_cases hadmits : listener.admits u.notes record u.session = true
    · have hbody : Emits listener Protocol.body (some <$> classBody c orphan) := by
        rw [map_eq_pure_bind]
        exact .before (.classBody hlistener orphan) fun _ => .pure _
      have hsome : Yields (fun result _ => ∃ record, result = some record)
          (some <$> classBody c orphan) := by
        rw [map_eq_pure_bind]
        exact .after fun record => .pure fun _ => ⟨record, rfl⟩
      rw [if_pos hadmits]
      cases hrest : (some <$> classBody c orphan) u with
      | ok result v =>
        obtain ⟨_, rfl⟩ := hsome _ _ _ hrest
        exact emits_around hlistener (hheader.ok hrun) (hbody.ok hrest)
      | error fault v =>
        exact (emits_around hlistener (hheader.ok hrun) (hbody.error hrest)).mono le_add_self
    · rw [if_neg hadmits]
      exact emits_around hlistener (hheader.ok hrun) (.of_eq rfl)

end Decode

/-- **A listener is told of a class in order**, whatever its file, and whoever listens. What it is
told is the version, the start of the class, its supertypes, its fields and methods each with what
their attributes say, the end of the members, what the attributes of the class say, and the end of
the class; less if the listener does not admit the class or the file is malformed. But if it is
told of the start of the class then it is told of the end, once and as the last thing. -/
theorem Session.run_protocol (options : Options) (listener : Listener) (bytes : Bytes)
    (session : Session) :
    let run := session.run options (some listener) bytes
    ∃ events, listener.Told #[] events run.notes.toArray ∧
      (listener.Candid → run.notes.filterMap Note.event? = events) ∧
      let word := events.map Event.kind
      word ∈ Protocol.words run.outcome ∧
      (.classStart ∈ word → word.count .classEnd = 1 ∧ word.getLast? = some .classEnd) ∧
      (.classEnd ∈ word → .classStart ∈ word) ∧
      ∀ record, run.outcome = .ok (some record) → word.count .membersEnd = 1 := by
  let context : Context := ⟨options.namer, some listener⟩
  have hrun : ∃ events, listener.Told #[] events
        (session.run options (some listener) bytes).notes.toArray ∧
      events.map Event.kind ∈
        Protocol.words (session.run options (some listener) bytes).outcome := by
    have hfile := Decode.classFile_emits (c := context) rfl
      (session.decoder options (some listener) bytes)
    rw [run]
    cases hrun : Decode.classFile context (session.decoder options (some listener) bytes) with
    | ok result t =>
      rw [hrun] at hfile
      obtain ⟨events, hword, htold⟩ := hfile
      exact ⟨events, htold, hword⟩
    | error fault t =>
      rw [hrun] at hfile
      obtain ⟨events, hword, htold⟩ := hfile
      exact ⟨events, htold, hword⟩
  obtain ⟨events, htold, hword⟩ := hrun
  obtain ⟨hstart, hend⟩ := Protocol.ends_of_mem_words hword
  refine ⟨events, htold, fun hcandid => htold.of_candid hcandid, hword, hstart, hend, ?_⟩
  intro record houtcome
  exact Protocol.count_membersEnd (houtcome ▸ hword)

end ClassFile
