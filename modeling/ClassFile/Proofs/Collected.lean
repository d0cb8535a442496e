import ClassFile.Proofs.Growth

/-!
# What is collected

References and imports, and the packages that are exposed, are collected by two steps only, for
which there is a session to ask for packages. Here the steps are functions of what was collected
before (`ClassFile.Decoder.Collected.refer`, `ClassFile.Decoder.Collected.expose`), and a decoder
that refers to a type does no more than that and tell of it (`ClassFile.Decode.refer_told`).
-/

namespace ClassFile

/-- What a decoder has collected, with the session that it asks for packages. -/
structure Decoder.Collected where
  session : Session
  references : TypeSet
  imports : PackageSet
  api : Option PackageSet

namespace Decoder

/-- What a decoder has collected. -/
def collected (s : Decoder) : Collected where
  session := s.session
  references := s.references
  imports := s.imports
  api := s.api

/-- A decoder that has collected something else. -/
def withCollected (s : Decoder) (found : Collected) : Decoder :=
  { s with
    session := found.session, references := found.references, imports := found.imports
    api := found.api }

theorem collected_withCollected (s : Decoder) (found : Collected) :
    (s.withCollected found).collected = found := rfl

namespace Collected

/-- A type is referred to. -/
def refer (namer : Namer) (type : TypeName) (access : Access) (found : Collected) : Collected :=
  if type.referent.isPrimitive then found
  else
    let answer := namer.packageOf type.referent found.session.table
    let asked := { found with session := { found.session with table := answer.2 } }
    if answer.1.primitive then asked
    else
      { asked with
        references := found.references.insert type.referent
        imports := found.imports.insert answer.1
        api := if access.isVisible then found.api.map (·.insert answer.1) else found.api }

/-- A type is exposed. -/
def expose (namer : Namer) (type : TypeName) (access : Access) (found : Collected) : Collected :=
  if found.api.isSome ∧ access.isVisible then
    let answer := namer.packageOf type found.session.table
    let asked := { found with session := { found.session with table := answer.2 } }
    if answer.1.primitive then asked
    else { asked with api := found.api.map (·.insert answer.1) }
  else found

/-- The type is one that can be referred to: neither it nor its package is primitive. -/
def Takes (namer : Namer) (type : TypeName) (found : Collected) : Prop :=
  type.referent.isPrimitive = false ∧
    (namer.packageOf type.referent found.session.table).1.primitive = false

instance (namer : Namer) (type : TypeName) (found : Collected) :
    Decidable (found.Takes namer type) :=
  inferInstanceAs (Decidable (_ ∧ _))

variable {namer : Namer} {type : TypeName} {found : Collected}

theorem refer_of_takes (h : found.Takes namer type) (access : Access) :
    found.refer namer type access =
      let answer := namer.packageOf type.referent found.session.table
      { session := { found.session with table := answer.2 }
        references := found.references.insert type.referent
        imports := found.imports.insert answer.1
        api := if access.isVisible then found.api.map (·.insert answer.1) else found.api } := by
  rw [refer, if_neg (ne_true_of_eq_false h.1)]
  exact if_neg (ne_true_of_eq_false h.2)

/-- A type that cannot be referred to leaves no trace but in the session. -/
theorem refer_of_not_takes (h : ¬found.Takes namer type) (access : Access) :
    found.refer namer type access = found ∨
      found.refer namer type access = { found with session := { found.session with
        table := (namer.packageOf type.referent found.session.table).2 } } := by
  rw [refer]
  by_cases hprimitive : type.referent.isPrimitive = true
  · exact .inl (if_pos hprimitive)
  · have hpackage : (namer.packageOf type.referent found.session.table).1.primitive = true :=
      Decidable.byContradiction fun hpackage =>
        h ⟨eq_false_of_ne_true hprimitive, eq_false_of_ne_true hpackage⟩
    rw [if_neg hprimitive]
    exact .inr (if_pos hpackage)

/-- The session is asked for packages, and nothing else is done to it. -/
theorem reaches_refer (type : TypeName) (access : Access) (found : Collected) :
    namer.Reaches found.session.table (found.refer namer type access).session.table := by
  by_cases h : found.Takes namer type
  · rw [refer_of_takes h]
    exact .ask _ (.refl _)
  · rcases refer_of_not_takes h access with hsame | hasked
    · rw [hsame]
      exact .refl _
    · rw [hasked]
      exact .ask _ (.refl _)

theorem reaches_expose (type : TypeName) (access : Access) (found : Collected) :
    namer.Reaches found.session.table (found.expose namer type access).session.table := by
  rw [expose]
  split
  · dsimp only
    split <;> exact .ask _ (.refl _)
  · exact .refl _

theorem references_expose (type : TypeName) (access : Access) (found : Collected) :
    (found.expose namer type access).references = found.references := by
  rw [expose]
  split
  · dsimp only
    split <;> rfl
  · rfl

theorem imports_expose (type : TypeName) (access : Access) (found : Collected) :
    (found.expose namer type access).imports = found.imports := by
  rw [expose]
  split
  · dsimp only
    split <;> rfl
  · rfl

end Collected

end Decoder

namespace Decode

/-- To refer to a type is to collect it and to tell of it, if it can be referred to. -/
theorem refer_told (c : Context) (type : TypeName) (access : Access) (s : Decoder) :
    refer c type access s = .ok ()
      (if s.collected.Takes c.namer type then
        (s.withCollected (s.collected.refer c.namer type access)).told c
          (.referred type.referent access)
      else s.withCollected (s.collected.refer c.namer type access)) := by
  obtain ⟨namer, listener⟩ := c
  rw [refer]
  by_cases hprimitive : type.referent.isPrimitive = true
  · rw [if_pos hprimitive, if_neg fun h : s.collected.Takes namer type =>
      Bool.false_ne_true (h.1.symm.trans hprimitive), Decoder.Collected.refer, if_pos hprimitive]
    rfl
  rw [if_neg hprimitive]
  refine EStateM.bind_eq rfl ?_
  by_cases hpackage : (namer.packageOf type.referent s.session.table).1.primitive = true
  · have hrefer : s.collected.refer namer type access =
        { s.collected with session :=
          { s.session with table := (namer.packageOf type.referent s.session.table).2 } } := by
      rw [Decoder.Collected.refer, if_neg hprimitive]
      exact if_pos hpackage
    rw [if_neg fun h : s.collected.Takes namer type =>
      Bool.false_ne_true (h.2.symm.trans hpackage), hrefer]
    exact congrFun (if_pos hpackage) _
  have htakes : s.collected.Takes namer type :=
    ⟨eq_false_of_ne_true hprimitive, eq_false_of_ne_true hpackage⟩
  rw [if_pos htakes, Decoder.Collected.refer_of_takes htakes]
  refine (congrFun (if_neg hpackage) _).trans ?_
  refine EStateM.bind_eq rfl (EStateM.bind_eq rfl (EStateM.bind_eq rfl ?_))
  dsimp only [Decoder.collected]
  split <;> rfl

/-- If nobody listens then it is no more than to collect it. -/
theorem refer_eq (namer : Namer) (type : TypeName) (access : Access) (s : Decoder) :
    refer ⟨namer, none⟩ type access s =
      .ok () (s.withCollected (s.collected.refer namer type access)) := by
  rw [refer_told]
  split <;> rfl

theorem expose_eq (c : Context) (type : TypeName) (access : Access) (s : Decoder) :
    expose c type access s =
      .ok () (s.withCollected (s.collected.expose c.namer type access)) := by
  obtain ⟨namer, listener⟩ := c
  rw [expose, Decoder.Collected.expose]
  by_cases hapi : s.collected.api.isSome ∧ access.isVisible
  · rw [if_pos hapi]
    refine EStateM.bind_eq rfl ((congrFun (if_pos hapi) s).trans (EStateM.bind_eq rfl ?_))
    by_cases hpackage : (namer.packageOf type s.session.table).1.primitive
    · dsimp only [Decoder.collected]
      rw [if_pos hpackage, if_pos hpackage]
      rfl
    dsimp only [Decoder.collected]
    rw [if_neg hpackage, if_neg hpackage]
    change EStateM.Result.ok () (if access.isVisible then _ else _) = _
    rw [if_pos hapi.2]
    rfl
  · rw [if_neg hapi]
    exact EStateM.bind_eq rfl (congrFun (if_neg hapi) s)

end Decode

end ClassFile
