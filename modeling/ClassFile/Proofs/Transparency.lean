import ClassFile.Proofs.Collecting
import ClassFile.Proofs.WatchedSteps

/-!
# Listeners that do nothing

A listener that does nothing and admits every class should make no difference. It makes one, and
only one: the methods that a body calls are looked up only if there is someone to be told. So with a
listener a decoding ends at the first call, in a body that is walked through, of a method that is
not in the pool, where without one the call is passed over (`ClassFile.Session.run_passive`).

The decoding without a listener takes down its walks, and the other one is followed beside it. From
states that agree in everything but the notes, two walks through the same code end alike unless a
call in it finds no method, and then the second one ends with the fault of the first such call
(`ClassFile.Decode.alikeUnless_walk`). So it is with the two decodings, and all calls in the walks
that were taken down (`ClassFile.Decode.Overhears`).
-/

namespace ClassFile

/-! ### Calls that find no method -/

namespace Pool

variable {pool : Pool}

theorem missing_eq_some_iff {index : UInt16} {fault : Fault} :
    pool.missing index = some fault ↔ index ≠ 0 ∧ pool.methodRef index = .error fault := by
  rw [missing]
  by_cases hindex : index = 0
  · simp [hindex]
  · rw [if_neg hindex]
    cases pool.methodRef index <;> simp [hindex]

theorem missing_eq_none_iff {index : UInt16} :
    pool.missing index = none ↔ (index ≠ 0 → ∃ method, pool.methodRef index = .ok method) := by
  rw [missing]
  by_cases hindex : index = 0
  · simp [hindex]
  · rw [if_neg hindex]
    cases pool.methodRef index <;> simp [hindex]

theorem like_after (pool : Pool) (action : Action) : (pool.after action).Like pool := by
  cases action with
  | load index => exact pool.like_markReferred index
  | type index => exact pool.like_markReferred index
  | _ => exact .refl pool

theorem firstMissing_of_missing {action : Action} {fault : Fault}
    (h : action.called?.bind pool.missing = some fault) (actions : List Action) :
    pool.firstMissing (action :: actions) = some fault := by
  rw [firstMissing, h]

theorem firstMissing_of_found {action : Action} (h : action.called?.bind pool.missing = none)
    (actions : List Action) :
    pool.firstMissing (action :: actions) = (pool.after action).firstMissing actions := by
  rw [firstMissing, h]

/-- Every called method is found, whatever is marked meanwhile: marks do not matter when a method is
looked up, so all calls may be judged by the pool as it was at first. -/
theorem firstMissing_eq_none_iff {actions : List Action} :
    pool.firstMissing actions = none ↔ ∀ index ∈ actions.filterMap Action.called?, index ≠ 0 →
      ∃ method, pool.methodRef index = .ok method := by
  induction actions generalizing pool with
  | nil => simp [firstMissing]
  | cons action actions ih =>
    have hlike := pool.like_after action
    have hsame (index : UInt16) : (∃ method, (pool.after action).methodRef index = .ok method) ↔
        ∃ method, pool.methodRef index = .ok method :=
      ⟨fun ⟨_, h⟩ => ⟨_, (Question.methodRef index).ok_of_like hlike h⟩,
        fun ⟨_, h⟩ => ⟨_, (Question.methodRef index).ok_of_like hlike.symm h⟩⟩
    have hrest := @ih (pool.after action)
    simp only [hsame] at hrest
    cases hcalled : action.called? with
    | none =>
      rw [firstMissing_of_found (by rw [hcalled]; rfl), List.filterMap_cons_none hcalled]
      exact hrest
    | some index =>
      rw [List.filterMap_cons_some hcalled, List.forall_mem_cons, ← missing_eq_none_iff]
      cases hmissing : pool.missing index with
      | none =>
        rw [firstMissing_of_found (by rw [hcalled]; exact hmissing), hrest]
        exact ⟨fun h => ⟨rfl, h⟩, And.right⟩
      | some fault =>
        rw [firstMissing_of_missing (by rw [hcalled]; exact hmissing)]
        simp

/-- The fault is that of a called method, in the pool as it is then: some constants may have got a
mark. -/
theorem exists_of_firstMissing {actions : List Action} {fault : Fault}
    (h : pool.firstMissing actions = some fault) :
    ∃ index ∈ actions.filterMap Action.called?, index ≠ 0 ∧
      ∃ marked : Pool, marked.Like pool ∧ marked.methodRef index = .error fault := by
  induction actions generalizing pool with
  | nil => cases h
  | cons action actions ih =>
    cases hcalled : action.called?.bind pool.missing with
    | none =>
      rw [firstMissing_of_found hcalled] at h
      obtain ⟨index, hindex, hzero, marked, hlike, hfault⟩ := ih h
      refine ⟨index, ?_, hzero, marked, hlike.trans (pool.like_after action), hfault⟩
      obtain ⟨later, hlater, hcalls⟩ := List.mem_filterMap.1 hindex
      exact List.mem_filterMap.2 ⟨later, List.mem_cons_of_mem action hlater, hcalls⟩
    | some found =>
      cases (firstMissing_of_missing hcalled actions).symm.trans h
      obtain ⟨index, hindex, hmissing⟩ := Option.bind_eq_some_iff.1 hcalled
      obtain ⟨hzero, hfault⟩ := missing_eq_some_iff.1 hmissing
      refine ⟨index, ?_, hzero, pool, .refl pool, hfault⟩
      exact List.mem_filterMap.2 ⟨action, List.mem_cons_self, hindex⟩

end Pool

namespace Walk

/-- No call in a body fails if and only if every method that it calls is in the pool. -/
theorem missed_eq_none_iff {walk : Walk} : walk.missed = none ↔ walk.Resolves :=
  Pool.firstMissing_eq_none_iff

/-- The fault is that of a method which the body calls and which is not in the pool. The pool is
that of the walk, but for the marks that class constants get on the way. -/
def Misses (walk : Walk) (fault : Fault) : Prop :=
  ∃ index ∈ walk.called, index ≠ 0 ∧
    ∃ marked : Pool, marked.Like walk.pool ∧ marked.methodRef index = .error fault

/-- A walk that has missed a method has missed it at the index of one of its calls. -/
theorem misses_of_missed {walk : Walk} {fault : Fault} (h : walk.missed = some fault) :
    walk.Misses fault := Pool.exists_of_firstMissing h

/-- No walk has missed anything exactly if each of them resolves all its calls. -/
theorem findSome?_missed_eq_none_iff {walks : List Walk} :
    walks.findSome? missed = none ↔ ∀ walk ∈ walks, walk.Resolves := by
  simp only [List.findSome?_eq_none_iff, missed_eq_none_iff]

/-- If one of the walks has missed a method, then it is one that does not resolve its calls. -/
theorem exists_not_resolves {walks : List Walk} {fault : Fault}
    (h : walks.findSome? missed = some fault) : ∃ walk ∈ walks, ¬walk.Resolves := by
  obtain ⟨walk, hwalk, hmissed⟩ := List.exists_of_findSome?_eq_some h
  exact ⟨walk, hwalk, fun hresolves => nomatch hmissed.symm.trans (missed_eq_none_iff.2 hresolves)⟩

end Walk

/-- The states are the same but for the notes. -/
structure Decoder.Unheard (s t : Decoder) : Prop where
  core : s.core = t.core
  input : s.input = t.input
  session : s.session = t.session

namespace Decode

variable {α β : Type} {namer : Namer}

/-- A decoding whose listener does nothing. -/
abbrev heard (namer : Namer) : Context := ⟨namer, some .passive⟩

/-- A decoding without a listener. -/
abbrev quiet (namer : Namer) : Context := ⟨namer, none⟩

/-- Whether somebody listens cannot be told from the core, the input or the session. -/
theorem congruent_unheard : Congruent Decoder.Unheard where
  core h := h.core
  input h := h.input
  withCore _ h := ⟨rfl, h.input, h.session⟩
  withInput _ h := ⟨h.core, rfl, h.session⟩

/-- A listener that was told something has its notes changed, and nothing else. -/
theorem told_unheard (event : Event) {s t : Decoder} (hst : s.Unheard t) :
    s.Unheard (t.told (heard namer) event) := ⟨hst.core, hst.input, hst.session⟩

/-- As long as no method is called, a listener that does nothing makes no difference. -/
theorem oblivious_unheard :
    Oblivious (quiet namer) (heard namer) (Simulates Eq Decoder.Unheard) := by
  have hindifferent : Indifferent (quiet namer) (heard namer) (Simulates Eq Decoder.Unheard) := by
    refine Simulates.indifferent congruent_unheard (fun type s t hst => ?_)
      fun event s t hst => .ok (told_unheard event hst)
    change Alike _ _ (.ok (namer.packageOf type s.session.table).1 _) (.ok _ _)
    rw [hst.session]
    exact .ok ⟨hst.core, hst.input, rfl⟩
  exact
    { hindifferent with
      take := fun _ => Simulates.read (fun _ => rfl) congruent_unheard.toSameInput _
      within := Simulates.within congruent_unheard.toSameInput
      readPool := Simulates.readPool congruent_unheard
      attempt := fun index access => (hindifferent.naming.referDescriptor index access).succeeds }

/-! ### Walks through code -/

/-- From states that are the same but for the notes the two steps end alike, unless something is
missing from the pool: then the second one fails for that reason. -/
def AlikeUnless (missing : Pool → Option Fault) (m m' : Decode α) : Prop :=
  ∀ s t, s.Unheard t → missing s.pool = none ∧ Alike Eq Decoder.Unheard (m s) (m' t) ∨
    ∃ fault u, missing s.pool = some fault ∧ m' t = .error fault u

namespace AlikeUnless

/-- A step that does the same with a listener and without one misses nothing. -/
theorem of_simulates {m m' : Decode α} (h : Simulates Eq Decoder.Unheard m m') :
    AlikeUnless (fun _ => none) m m' := fun s t hst => .inl ⟨rfl, h s t hst⟩

/-- The first of two steps may miss something, if the second one does the same on both sides. -/
theorem bind {missing : Pool → Option Fault} {m m' : Decode α} {f f' : α → Decode β}
    (hm : AlikeUnless missing m m') (hf : ∀ a, Simulates Eq Decoder.Unheard (f a) (f' a)) :
    AlikeUnless missing (m >>= f) (m' >>= f') := by
  intro s t hst
  rcases hm s t hst with ⟨hnone, halike⟩ | ⟨fault, u, hmissing, hrun⟩
  · exact .inl ⟨hnone, halike.bind fun {a s' t'} _ hnext => hf a s' t' hnext⟩
  · exact .inr ⟨fault, u, hmissing, EStateM.bind_of_error hrun⟩

/-- Here is the one difference: with a listener the method is looked up, and that may fail. -/
theorem call (index : UInt16) : AlikeUnless (fun pool => pool.missing index)
    ((handlers (quiet namer)).method index) ((handlers (heard namer)).method index) := by
  intro s t hst
  have hpool : s.pool = t.pool := congrArg Decoder.Core.pool hst.core
  rw [method_eq_pure, hpool]
  dsimp only [handlers, Pool.missing]
  by_cases hindex : index = 0
  · rw [if_pos hindex, if_neg fun h => h.1 hindex]
    exact .inl ⟨rfl, .ok hst⟩
  rw [if_neg hindex, if_pos ⟨hindex, rfl⟩]
  cases hmethod : t.pool.methodRef index with
  | ok method =>
    have hask : ask (·.methodRef index) t = .ok method t := by rw [ask, hmethod]
    rw [EStateM.bind_of_ok hask]
    exact .inl ⟨rfl, .ok (told_unheard _ hst)⟩
  | error fault =>
    have hask : ask (·.methodRef index) t = .error fault t := by rw [ask, hmethod]
    exact .inr ⟨fault, t, rfl, EStateM.bind_of_error hask⟩

/-- An instruction is acted upon, and if it calls a method, that is looked up. Nothing else about it
is different. -/
theorem act (targets : Targets) (last : Option UInt16) (action : Action) :
    AlikeUnless (fun pool => action.called?.bind pool.missing)
      ((handlers (quiet namer)).act targets last action)
      ((handlers (heard namer)).act targets last action) := by
  have hplain := @oblivious_unheard namer
  have hconstant (index : UInt16) (next : Option UInt16) :=
    of_simulates (hplain.bind (hplain.referClassConstant index) fun _ => hplain.pure next)
  cases action with
  | load index => exact hconstant index (some index)
  | type index => exact hconstant index none
  | invoke index => exact (call index).bind fun _ => hplain.pure last
  | invokeStatic index =>
    by_cases hloads : targets.contain index = true ∧ last.isSome = true
    · obtain ⟨htarget, hlast⟩ := hloads
      obtain ⟨constant, rfl⟩ := Option.isSome_iff_exists.1 hlast
      rw [act_invokeStatic _ htarget, act_invokeStatic _ htarget]
      exact (call index).bind fun _ => hplain.naming.loadClass
        (fun hk => hplain.lookGlance fun s t hst => hk s t (Decoder.glimpse_eq hst)) constant
    · rw [act_invokeStatic_of_not _ hloads, act_invokeStatic_of_not _ hloads]
      exact (call index).bind fun _ => hplain.pure last
  | widened => exact of_simulates (hplain.pure last)
  | other => exact of_simulates (hplain.pure none)

/-- Without a listener every instruction is acted upon, and the constants that it names are marked
in the pool. -/
theorem follow (targets : Targets) (last : Option UInt16) (actions : List Action) :
    AlikeUnless (fun pool => pool.firstMissing actions)
      ((handlers (quiet namer)).follow targets last actions)
      ((handlers (heard namer)).follow targets last actions) := by
  induction actions generalizing last with
  | nil => exact fun s t hst => .inl ⟨rfl, .ok hst⟩
  | cons action actions ih =>
    intro s t hst
    obtain ⟨next, s', hrun, hbare⟩ := @act_bare namer targets last action s
    have hpool : s'.pool = s.pool.after action :=
      calc s'.pool
        _ = (markedBy s action).pool := (congrArg Decoder.pool hbare :)
        _ = s.pool.after action := by cases action <;> rfl
    rw [Handlers.follow_cons, Handlers.follow_cons]
    rcases @act namer targets last action s t hst with
      ⟨hfound, halike⟩ | ⟨fault, u, hmissing, hfault⟩
    · rw [hrun] at halike
      obtain ⟨_, _, t', hs, ht, hnext⟩ | ⟨_, _, _, _, hs, _⟩ := halike.eq_or <;> cases hs
      have hrest := ih next s' t' hnext
      rw [hpool] at hrest
      rw [EStateM.bind_of_ok hrun, EStateM.bind_of_ok ht]
      dsimp only
      rwa [Pool.firstMissing_of_found hfound]
    · exact .inr ⟨fault, u, Pool.firstMissing_of_missing hmissing actions,
        EStateM.bind_of_error hfault⟩

end AlikeUnless

/-- **Two walks through the same code**, without a listener and with one that does nothing. -/
theorem alikeUnless_walk (targets : Targets) (code : Bytes) :
    AlikeUnless (fun pool => Walk.missed ⟨pool, code⟩) ((handlers (quiet namer)).walk targets code)
      ((handlers (heard namer)).walk targets code) := by
  rw [Handlers.walk_eq, Handlers.walk_eq]
  change AlikeUnless (fun pool => pool.firstMissing (Instruction.row code).actions) _ _
  refine (AlikeUnless.follow targets none _).bind fun _ => ?_
  cases (Instruction.row code).fault with
  | none => exact .pure ()
  | some fault => exact .throw rfl

/-! ### Whole decodings -/

/-- How the two decodings can end. As long as all calls in the walks that were taken down find their
methods, they end alike; otherwise the second one ends with the fault of the first that does not. -/
inductive Overheard : EStateM.Result Fault (Decoder × List Walk) α →
    EStateM.Result Fault Decoder α → Prop
  | ok {value : α} {s t : Decoder} {walks : List Walk} :
    walks.findSome? Walk.missed = none → s.Unheard t →
      Overheard (.ok value (s, walks)) (.ok value t)
  | error {fault : Fault} {s t : Decoder} {walks : List Walk} :
    walks.findSome? Walk.missed = none → s.Unheard t →
      Overheard (.error fault (s, walks)) (.error fault t)
  | missed {watched : EStateM.Result Fault (Decoder × List Walk) α} {fault : Fault} {u : Decoder} :
    (Handlers.reached watched).2.findSome? Walk.missed = some fault →
      Overheard watched (.error fault u)

/-- A step without walks ends as the other one does. All calls so far must have found their
methods. -/
theorem Overheard.of_alike {m m' : Decode α} {s t : Decoder} {walks : List Walk}
    (h : Alike Eq Decoder.Unheard (m s) (m' t)) (hwalks : walks.findSome? Walk.missed = none) :
    Overheard (Watched.plain m (s, walks)) (m' t) := by
  rw [Watched.plain]
  obtain ⟨a, s', t', hs, ht, hnext⟩ | ⟨fault, _, s', t', hs, ht, rfl, hnext⟩ := h.eq_or
  · rw [hs, ht]
    exact .ok hwalks hnext
  · rw [hs, ht]
    exact .error hwalks hnext

/-- From states that are the same but for the notes the two steps end as two decodings can. No walk
that was taken down before is forgotten. -/
structure Overhears (m : Watched α) (m' : Decode α) : Prop where
  keeps (s : Decoder) (walks : List Walk) : walks <+: (Handlers.reached (m (s, walks))).2
  ends {s t : Decoder} {walks : List Walk} : s.Unheard t → walks.findSome? Walk.missed = none →
    Overheard (m (s, walks)) (m' t)

namespace Overhears

/-- A step without walks adds none to those that were taken down. -/
theorem reached_plain (m : Decode α) (s : Decoder) (walks : List Walk) :
    (Handlers.reached (Watched.plain m (s, walks))).2 = walks := by
  rw [Watched.plain]
  cases m s <;> rfl

/-- A step without walks that is the same for both overhears nothing. -/
theorem plain {m m' : Decode α} (h : Simulates Eq Decoder.Unheard m m') :
    Overhears (Watched.plain m) m' where
  keeps s walks := (reached_plain m s walks).symm ▸ List.prefix_rfl
  ends hst hwalks := .of_alike (h _ _ hst) hwalks

/-- Steps one after the other: either both went through, or the second decoding stopped at the first
method that was missed. -/
theorem bind {m : Watched α} {m' : Decode α} {f : α → Watched β} {f' : α → Decode β}
    (hm : Overhears m m') (hf : ∀ a, Overhears (f a) (f' a)) : Overhears (m >>= f) (m' >>= f') where
  keeps s walks := by
    have hfirst := hm.keeps s walks
    cases hrun : m (s, walks) with
    | ok a t =>
      rw [hrun] at hfirst
      rw [EStateM.bind_of_ok hrun]
      exact hfirst.trans ((hf a).keeps t.1 t.2)
    | error fault t =>
      rw [hrun] at hfirst
      rw [EStateM.bind_of_error hrun]
      exact hfirst
  ends {s t walks} hst hwalks := by
    have hfirst := hm.ends hst hwalks
    generalize hrun : m (s, walks) = watched, hrun' : m' t = other at hfirst
    cases hfirst with
    | @ok a s' t' walks' hfound hnext =>
      rw [EStateM.bind_of_ok hrun, EStateM.bind_of_ok hrun']
      exact (hf a).ends hnext hfound
    | error hfound hnext =>
      rw [EStateM.bind_of_error hrun, EStateM.bind_of_error hrun']
      exact .error hfound hnext
    | missed hmissed =>
      rw [EStateM.bind_of_error hrun']
      refine .missed ?_
      cases watched with
      | ok a s' =>
        -- more walks may be taken down behind this one, and its call stays the first
        rw [EStateM.bind_of_ok hrun]
        exact ((hf a).keeps s'.1 s'.2).findSome?_eq_some hmissed
      | error fault s' =>
        rw [EStateM.bind_of_error hrun]
        exact hmissed

/-- The part of the input that an attribute has to itself may have walks in it. -/
theorem within (bytes : Bytes) {m : Watched Unit} {m' : Decode Unit} (hm : Overhears m m') :
    Overhears (Watched.within bytes m) (Decode.within bytes m') where
  keeps s walks := by
    have hrun := hm.keeps { s with input := .ofBytes bytes } walks
    rw [Watched.within]
    generalize m ({ s with input := .ofBytes bytes }, walks) = watched at hrun
    cases watched <;> exact hrun
  ends {s t walks} hst hwalks := by
    have hrun := hm.ends (congruent_unheard.withInput (.ofBytes bytes) hst) hwalks
    rw [Watched.within, Decode.within, ← hst.input]
    generalize m ({ s with input := .ofBytes bytes }, walks) = watched,
      m' { t with input := .ofBytes bytes } = other at hrun
    cases hrun with
    | ok hfound hnext => exact .ok hfound (congruent_unheard.withInput s.input hnext)
    | error hfound hnext => exact .error hfound (congruent_unheard.withInput s.input hnext)
    | missed hmissed =>
      refine .missed ?_
      cases watched <;> exact hmissed

/-- What is done at the end of the second decoding does not matter to how it ends. -/
theorem ending {m : Watched α} {m' : Decode α} {f : Decoder → Decoder} (hm : Overhears m m')
    (hf : ∀ s t : Decoder, s.Unheard t → s.Unheard (f t)) : Overhears m (ending m' f) where
  keeps := hm.keeps
  ends {s t walks} hst hwalks := by
    have hrun := hm.ends hst hwalks
    rw [Decode.ending]
    generalize m (s, walks) = watched, m' t = other at hrun
    cases hrun with
    | ok hfound hnext => exact .ok hfound (hf _ _ hnext)
    | error hfound hnext => exact .error hfound (hf _ _ hnext)
    | missed hmissed => exact .missed hmissed

/-- The walk is taken down first, and then it depends on its calls how the second one ends. -/
theorem walk (code : Bytes) : Overhears (Watched.walk (quiet namer) code)
    (get >>= fun s => (handlers (heard namer)).walk s.targets code) where
  keeps s walks := by
    have htaken : (Handlers.reached (Watched.walk (quiet namer) code (s, walks))).2 =
        walks ++ [⟨s.pool, code⟩] := reached_plain _ s _
    exact htaken ▸ List.prefix_append walks _
  ends {s t walks} hst hwalks := by
    have hall : (walks ++ [Walk.mk s.pool code]).findSome? Walk.missed =
        (Walk.mk s.pool code).missed := by
      rw [List.findSome?_append, hwalks, Option.none_or, List.findSome?_singleton]
    have htargets : s.targets = t.targets := congrArg Decoder.Core.targets hst.core
    change Overheard (Watched.plain _ (s, walks ++ [⟨s.pool, code⟩]))
      ((handlers (heard namer)).walk t.targets code t)
    rcases @alikeUnless_walk namer t.targets code s t hst with
      ⟨hfound, halike⟩ | ⟨fault, u, hmissing, hfault⟩
    · have hsimulates := Overheard.of_alike halike (hall.trans hfound)
      rw [← htargets] at hsimulates ⊢
      exact hsimulates
    · rw [hfault]
      refine .missed ?_
      rw [reached_plain, hall]
      exact hmissing

/-- **All that has walks in it overhears them.** So everything that is put together of such steps
does, up to the decoding of a whole class. -/
theorem watching : Watched.Watching (quiet namer) (heard namer)
    (Simulates Eq Decoder.Unheard) fun m m' => Overhears m m' where
  oblivious := oblivious_unheard
  plain := plain
  bind := bind
  within := within
  walk := walk

/-- **A listener that does nothing** makes no difference to the decoding of a class file, up to the
first call of a method that is not in the pool. -/
theorem classFile : Overhears (Watched.classFile namer) (classFile (heard namer)) := by
  have hbody (orphan : Bool) : Overhears
      (Watched.classBody (quiet namer) orphan >>= fun record => Pure.pure (some record))
      (some <$> classBody (heard namer) orphan) :=
    have hwatching := @watching namer
    (hwatching.classBody orphan).bind fun _ => hwatching.pure _
  -- the listener is told of the start and of the end, which the first decoding does not see
  have hrest (record : Record) (orphan : Bool) : Overhears
      (Watched.classBody (quiet namer) orphan >>= fun record => Pure.pure (some record))
      (tell (heard namer) (.classStart record) >>= fun _ =>
        Decode.ending (some <$> classBody (heard namer) orphan)
          (Decoder.told (heard namer) .classEnd)) :=
    { keeps := (hbody orphan).keeps
      ends := fun hst hwalks => ((hbody orphan).ending fun _ _ => told_unheard .classEnd).ends
        (told_unheard (.classStart record) hst) hwalks }
  exact (plain oblivious_unheard.classHeader).bind fun (record, orphan) => hrest record orphan

end Overhears

/-- What succeeds with a listener that does nothing succeeds without it. -/
theorem classFile_of_heard {s t t' : Decoder} (hst : s.Unheard t) {value : Option Record}
    (h : classFile (heard namer) t = .ok value t') :
    ∃ s', classFile (quiet namer) s = .ok value s' ∧ s'.Unheard t' := by
  have hends := (@Overhears.classFile namer).ends hst List.findSome?_nil
  have hlogs := Watched.logs_classFile namer s []
  rw [h] at hends
  generalize Watched.classFile namer (s, []) = watched at hends hlogs
  cases hends with
  | ok _ hnext => exact ⟨_, hlogs, hnext⟩

end Decode

namespace Session

variable {options : Options}

/-- What comes of a decoding whose listener does nothing, by the walks that a decoding without a
listener makes. -/
theorem outcome_passive (h : options.walkForListener = false) (bytes : Bytes) (session : Session) :
    (session.run options (some .passive) bytes).outcome =
      match (session.walks options bytes).findSome? Walk.missed with
      | none => (session.run options none bytes).outcome
      | some fault => .error fault := by
  have hstart : (session.decoder options none bytes).Unheard
      (session.decoder options (some .passive) bytes) :=
    ⟨by rw [decoder, decoder, h]; rfl, rfl, rfl⟩
  have hends := (@Decode.Overhears.classFile options.namer).ends hstart List.findSome?_nil
  have hlogs := Decode.Watched.logs_classFile options.namer (session.decoder options none bytes) []
  rw [run, run, walks]
  generalize Decode.Watched.classFile options.namer (session.decoder options none bytes, []) =
    watched, Decode.classFile (Decode.heard options.namer)
      (session.decoder options (some .passive) bytes) = other at hends hlogs ⊢
  cases hends with
  | ok hfound _ =>
    rw [Handlers.reached, hfound, hlogs]
  | error hfound _ =>
    rw [Handlers.reached, hfound, hlogs]
  | missed hmissed => rw [hmissed]

/-- **A listener that does nothing makes no difference** to what comes of a decoding, if bodies are
not walked through for its sake, and if every method that is called in a body which the decoding
walks through is in the pool. Otherwise the decoding with the listener ends with the fault of the
first call that finds no method. -/
theorem run_passive (h : options.walkForListener = false) (bytes : Bytes) (session : Session) :
    ((∀ walk ∈ session.walks options bytes, walk.Resolves) →
      (session.run options (some .passive) bytes).outcome =
        (session.run options none bytes).outcome) ∧
    ((∃ walk ∈ session.walks options bytes, ¬walk.Resolves) →
      ∃ fault, (session.walks options bytes).findSome? Walk.missed = some fault ∧
        (∃ walk ∈ session.walks options bytes, walk.Misses fault) ∧
        (session.run options (some .passive) bytes).outcome = .error fault) := by
  rw [outcome_passive h, ← Walk.findSome?_missed_eq_none_iff]
  refine ⟨fun hnone => by rw [hnone], fun ⟨walk, hwalk, hmissed⟩ => ?_⟩
  cases hfirst : (session.walks options bytes).findSome? Walk.missed with
  | none => exact absurd (Walk.findSome?_missed_eq_none_iff.1 hfirst walk hwalk) hmissed
  | some fault =>
    obtain ⟨first, hmem, hfault⟩ := List.exists_of_findSome?_eq_some hfirst
    exact ⟨fault, rfl, ⟨first, hmem, Walk.misses_of_missed hfault⟩, rfl⟩

/-- A class `A` with a class constant that no member reference names, and a method whose body
calls a method at an index beyond the pool. -/
def callBeyondPool : Bytes :=
  [0xCA, 0xFE, 0xBA, 0xBE, 0, 0, 0, 52, 0, 6, 1, 0, 1, 65, 7, 0, 1, 1, 0, 4, 67, 111, 100, 101,
    1, 0, 1, 109, 1, 0, 3, 40, 41, 86, 0, 33, 0, 2, 0, 0, 0, 0, 0, 0, 0, 1, 0, 1, 0, 4, 0, 5, 0, 1,
    0, 3, 0, 0, 0, 15, 0, 0, 0, 0, 0, 0, 0, 3, 0xB6, 0, 99, 0, 0, 0, 0, 0, 0]

/-- Without a listener there is a record of the class, and with one that does nothing the decoding
ends at the call. If the call is of the method at index zero instead, it is passed over by both. -/
theorem run_passive_of_call :
    let options : Options := { walkForListener := false }
    options.walkForListener = false ∧
      (∃ record, (Session.run options none callBeyondPool {}).outcome = .ok (some record) ∧
        record.name = ⟨"A"⟩) ∧
      (Session.run options (some .passive) callBeyondPool {}).outcome =
        .error (.indexOutOfRange 99) ∧
      (Session.run options (some .passive) (callBeyondPool.set 70 0) {}).outcome =
        (Session.run options none (callBeyondPool.set 70 0) {}).outcome := by
  intro options
  have hmissed : (Session.walks options callBeyondPool {}).findSome? Walk.missed =
      some (.indexOutOfRange 99) := by decide +kernel
  have hresolves : (Session.walks options (callBeyondPool.set 70 0) {}).findSome? Walk.missed =
      none := by decide +kernel
  have hrecord : (Session.run options none callBeyondPool {}).outcome.toOption.join.map
      Record.name = some ⟨"A"⟩ := by decide +kernel
  obtain ⟨record, hjoin, hname⟩ := Option.map_eq_some_iff.1 hrecord
  refine ⟨rfl, ⟨record, ?_, hname⟩, ?_, ?_⟩
  · exact Except.eq_ok_of_toOption (Option.join_eq_some_iff.1 hjoin)
  · obtain ⟨fault, hfault, -, hrun⟩ :=
      (run_passive rfl callBeyondPool {}).2 (Walk.exists_not_resolves hmissed)
    cases hmissed.symm.trans hfault
    exact hrun
  · exact (run_passive rfl (callBeyondPool.set 70 0) {}).1
      (Walk.findSome?_missed_eq_none_iff.1 hresolves)

/-- There is a record without a listener, and a fault with one that does nothing. So the presence of
a listener can decide whether a class is accepted at all. -/
theorem run_passive_differs_of_call :
    let options : Options := { walkForListener := false }
    (Session.run options none callBeyondPool {}).outcome.isOk = true ∧
      (Session.run options (some .passive) callBeyondPool {}).outcome.isOk = false := by
  decide +kernel

end Session

end ClassFile
