import ClassFile.Bytecode.Row
import ClassFile.Proofs.WalkDecision
import ClassFile.Proofs.Orphans

/-!
# Classes that are loaded by name are referred to

Where bodies are walked through, a string constant that is loaded right in front of a call of a
method that loads classes names a class, and the class is referred to
(`ClassFile.Session.run_loads`). This holds for every body, whoever listens, with two reservations.

A call is recognized by the index of the method that it calls, and for each of the methods that load
classes there is one such index: the least (`ClassFile.Pool.findMethod_eq_some`). A pool may have
further references to the same method, and calls by them go unnoticed
(`ClassFile.Session.run_loads_differs`). And a package may be withheld, as for any other reference.

The proof follows the layout down to the call. Up to there the decoder goes on walking and looking
for the same methods (`ClassFile.Decode.Minding`), and from there on the class stays among the
references (`ClassFile.Decode.Holding`); so it is enough at each level that one part of the class
has the call (`ClassFile.Decode.Leads.forM_of_mem`).
-/

namespace ClassFile

/-! ### Methods that load classes -/

namespace Pool

/-- The methods that load a class by its name, in a class of this name: the one of the platform, and
the one that early compilers put into the class itself. -/
def loaderNames (name : TypeName) : List MethodName :=
  [⟨"java/lang/Class", "forName", Decode.loaderDescriptor⟩,
    ⟨name.binary, "class$", Decode.loaderDescriptor⟩]

variable {pool : Pool} {method : MethodName} {index : UInt16}

/-- An index that names a method is one of the pool. -/
theorem lt_size_of_namesMethod (h : pool.namesMethod method index = true) :
    index.toNat < pool.size := by
  rw [namesMethod, entry] at h
  cases hentry : pool.entries[index.toNat]? with
  | none =>
    rw [hentry] at h
    cases h
  | some found => exact (Array.getElem?_eq_some_iff.1 hentry).1

/-- The least of the references to a method is found: the search goes up, and all earlier slots were
looked at. -/
theorem findMethod_eq_some (hnames : pool.namesMethod method index = true) (hzero : index ≠ 0)
    (hfirst : ∀ earlier < index, pool.namesMethod method earlier = false) :
    pool.findMethod method = some index := by
  have hlt := lt_size_of_namesMethod hnames
  have hpos : index.toNat ≠ 0 := fun h => hzero (UInt16.toNat_inj.1 h)
  -- the slots in front of the reference, the reference, and the slots behind it
  have hslots : (List.range pool.size).drop 1 =
      List.range' 1 (index.toNat - 1) ++ index.toNat :: List.range' (index.toNat + 1)
        (pool.size - index.toNat - 1) := by
    rw [List.range_eq_range', List.drop_range',
      show pool.size - 1 = (index.toNat - 1) + (pool.size - index.toNat - 1 + 1) by omega,
      ← List.range'_append_1, List.range'_succ,
      show 0 + 1 * 1 + (index.toNat - 1) = index.toNat by omega]
  rw [findMethod, hslots, List.findSome?_eq_some_iff]
  refine ⟨_, index.toNat, _, rfl, ?_, fun slot hslot => ?_⟩
  · rw [UInt16.ofNat_toNat, if_pos hnames]
  · rw [List.mem_range'_1] at hslot
    have hsame : (UInt16.ofNat slot).toNat = slot :=
      UInt16.toNat_ofNat_of_lt' (Nat.lt_trans (by omega) index.toNat_lt)
    have hearlier : UInt16.ofNat slot < index := by
      rw [UInt16.lt_iff_toNat_lt, hsame]
      omega
    rw [hfirst _ hearlier]
    rfl

/-- No reference is in slot zero, which is never filled. -/
theorem ne_zero_of_namesMethod {raw : RawHeader}
    (h : raw.constants.namesMethod method index = true) : index ≠ 0 := by
  rintro rfl
  rw [namesMethod, entry] at h
  cases hentry : raw.constants.entries[(0 : UInt16).toNat]? with
  | none =>
    rw [hentry] at h
    cases h
  | some found =>
    rw [hentry, (raw.fresh_constants hentry).of_zero] at h
    cases h

/-- A call by the least reference to a method that loads classes is recognized. -/
theorem contain_loaders {raw : RawHeader} {name : TypeName} (hmethod : method ∈ loaderNames name)
    (hnames : raw.constants.namesMethod method index = true)
    (hfirst : ∀ earlier < index, raw.constants.namesMethod method earlier = false) :
    (raw.constants.loaders name).contain index = true := by
  have hfound := findMethod_eq_some hnames (ne_zero_of_namesMethod hnames) hfirst
  rw [Targets.contain, Bool.or_eq_true, decide_eq_true_eq, decide_eq_true_eq]
  rw [loaderNames, List.mem_pair] at hmethod
  obtain rfl | rfl := hmethod
  · exact .inl hfound
  · exact .inr hfound

end Pool

/-- A place in the method bodies of a class of this name where a class is loaded by its name: a
string constant is loaded, and right behind it a method is called that loads classes. -/
structure Layout.Loading (layout : Layout) (name : TypeName) where
  method : RawMember
  raw : RawAttribute
  code : RawCode
  trailing : Bytes
  front : List Action
  constant : UInt16
  call : UInt16
  back : List Action
  text : String
  loader : Pool.MethodName
  method_mem : method ∈ layout.methods
  raw_mem : raw ∈ method.attributes
  raw_name : layout.constants.utf8 raw.name = .ok "Code"
  fits : RawCode.form.Fits code
  body : raw.body = RawCode.form.encode code ++ trailing
  split : (Instruction.row code.code).actions =
    front ++ .load constant :: .invokeStatic call :: back
  string : layout.constants.stringConstant constant = some text
  names : Handlers.namesClass text = true
  loader_mem : loader ∈ Pool.loaderNames name
  resolves : layout.constants.namesMethod loader call = true

/-- The class that is loaded there, or what it is an array of. -/
def Layout.Loading.type {layout : Layout} {name : TypeName} (loading : layout.Loading name) :
    TypeName :=
  (TypeName.ofDotted loading.text).referent

/-- Method bodies are walked through: a listener has it done, or something in the class calls for
it. -/
def Layout.Crawled (layout : Layout) (options : Options) (listener : Option Listener) : Prop :=
  options.walkForListener = true ∧ listener.isSome = true ∨ layout.Walks

/-! ### Types that are referred to for good -/

namespace Layout.Loading

variable {layout : Layout} {name : TypeName} {table : PackageTable}

/-- A class that is loaded by name is never in the primitive package, for its name has been
checked. -/
theorem ordinary (loading : layout.Loading name) :
    (Package.ofType loading.type).primitive = false :=
  Handlers.ordinary_of_namesClass loading.names

/-- No package is withheld by a namer that computes packages, since none is ever taken by another
type. -/
theorem not_withholds_exact (loading : layout.Loading name) :
    ¬Namer.exact.Withholds table loading.type := by
  intro h
  cases h.symm.trans loading.ordinary

/-- and by the usual one only the package that has the name under which the primitive one is
filed. -/
theorem of_withholds_shared (loading : layout.Loading name)
    (h : Namer.shared.Withholds table loading.type) :
    (Package.ofType loading.type).binary = PackageTable.primitiveKey := by
  obtain hsame | ⟨hprimitive | hkey, -⟩ := Namer.shared_packageOf loading.type table
  · rw [Namer.Withholds, hsame, loading.ordinary] at h
    cases h
  · cases hprimitive.symm.trans loading.ordinary
  · exact hkey

/-- Nor by the usual namer, if the package does not have the name of the primitive one. -/
theorem not_withholds_shared (loading : layout.Loading name)
    (h : (Package.ofType loading.type).binary ≠ PackageTable.primitiveKey) :
    ¬Namer.shared.Withholds table loading.type :=
  fun hwithholds => h (loading.of_withholds_shared hwithholds)

end Layout.Loading

namespace Decoder

/-- All types of a set were referred to. -/
def Collected.Has (types : TypeName → Prop) (found : Collected) : Prop :=
  ∀ type, types type → type ∈ found.references

/-- That some types have been referred to is kept by all that is collected, whatever it is. -/
theorem Collected.Has.kept (c : Context) (pool : Pool) (walks : Prop) (types : TypeName → Prop) :
    KeptExposed c pool walks (Has types) where
  refer {found named} access _ h := by
    by_cases htakes : found.Takes c.namer named
    · rw [refer_of_takes htakes]
      exact fun type htype => Std.ExtTreeSet.mem_insert.2 (.inr (h type htype))
    · rcases refer_of_not_takes htakes access with hsame | hasked
      · rw [hsame]
        exact h
      · rw [hasked]
        exact h
  told {s} event h := by
    rw [Decoder.told]
    cases c.listener <;> exact h
  opened _ h := h
  expose {found} named access h := by
    rw [Has, references_expose]
    exact h

/-- The decoder walks through the bodies of a class of this layout and this name. -/
def Strolls (layout : Layout) (name : TypeName) (s : Decoder) : Prop :=
  s.scene.Minds layout name fun walking targets =>
    walking = true ∧ targets = layout.constants.loaders name

/-- The decoder goes through a class of this layout and this name, and has referred to these
types. -/
def Refers (layout : Layout) (name : TypeName) (types : TypeName → Prop) (s : Decoder) : Prop :=
  (s.scene.Minds layout name fun _ _ => True) ∧ s.Holds layout.constants (Collected.Has types)

end Decoder

namespace Decode

open Decoder

variable {c : Context} {layout : Layout} {name : TypeName} {types : TypeName → Prop}

/-- A step that keeps to the methods and to the bodies that are walked through keeps what was
referred to. -/
theorem refers_leads {α : Type} {m : Decode α} (hminding : Minding layout name (fun _ _ => True) m)
    (hholding : Holding layout.constants (Collected.Has types) m) :
    Leads (Refers layout name types) (fun _ => Refers layout name types) m :=
  (hminding.and hholding.keeps).leads

/-- A type that is not withheld is referred to, and stays so: its package is an ordinary one. -/
theorem refer_leads {named : TypeName} (hprimitive : named.referent.isPrimitive = false)
    (hgranted : ∀ table, ¬c.namer.Withholds table named.referent) (access : Access) :
    Leads (Strolls layout name) (fun _ => Refers layout name (· = named.referent))
      (refer c named access) := by
  intro s _ t hs hrun
  have ht : t.scene.Minds layout name _ := (Minding.naming.refer named access).leads s _ t hs hrun
  have htakes : s.collected.Takes c.namer named :=
    ⟨hprimitive, eq_false_of_ne_true (hgranted s.session.table)⟩
  refine ⟨ht.imp fun _ _ _ => trivial, ht.pool, ?_⟩
  rw [refer_told, if_pos htakes] at hrun
  cases hrun
  refine (Collected.Has.kept c layout.constants True (· = named.referent)).told _ ?_
  rw [collected_withCollected, Collected.refer_of_takes htakes]
  rintro _ rfl
  exact Std.ExtTreeSet.mem_insert_self

/-! ### The walk -/

/-- Where a walk ends with a fault nothing is left to show. -/
theorem halt_leads {I : Decoder → Prop} (fault : Option Fault) :
    Leads I (fun _ => I) (Handlers.halt fault) := by
  cases fault with
  | none => exact .pure fun _ hs => hs
  | some fault => exact fun _ _ _ _ hrun => nomatch hrun

/-- A call by which a class is loaded, right behind its name: the constant is still the last one,
and the method is the one that is looked for. -/
theorem act_leads {constant call : UInt16} {text : String}
    (htarget : (layout.constants.loaders name).contain call = true)
    (htext : layout.constants.stringConstant constant = some text)
    (hnames : Handlers.namesClass text = true)
    (hgranted : ∀ table, ¬c.namer.Withholds table (TypeName.ofDotted text).referent) :
    Leads (Strolls layout name)
      (fun _ => Refers layout name (· = (TypeName.ofDotted text).referent))
      ((handlers c).act (layout.constants.loaders name) (some constant) (.invokeStatic call)) := by
  rw [act_invokeStatic c htarget]
  refine (Minding.call call).leads.bind fun _ => .look fun s hs => ?_
  have htext : s.pool.stringConstant constant = some text :=
    (congrFun (Pool.Question.stringConstant hs.pool) constant).trans htext
  rw [htext]
  dsimp only
  rw [if_pos hnames]
  exact (refer_leads (Handlers.isPrimitive_of_namesClass hnames) hgranted 0).bind fun _ =>
    .pure fun _ hs => hs

/-- **A walk refers to the class** that is loaded where its name stands right in front of the
call. -/
theorem walk_leads {code : Bytes} {front back : List Action}
    {constant call : UInt16} {text : String}
    (hsplit : (Instruction.row code).actions =
      front ++ .load constant :: .invokeStatic call :: back)
    (htarget : (layout.constants.loaders name).contain call = true)
    (htext : layout.constants.stringConstant constant = some text)
    (hnames : Handlers.namesClass text = true)
    (hgranted : ∀ table, ¬c.namer.Withholds table (TypeName.ofDotted text).referent) :
    Leads (Strolls layout name)
      (fun _ => Refers layout name (· = (TypeName.ofDotted text).referent))
      ((handlers c).walk (layout.constants.loaders name) code) := by
  have hstrolls : Walking c c fun m _ => Minding layout name
      (fun walking targets => walking = true ∧ targets = layout.constants.loaders name) m :=
    Minding.elementary.lockstep.toWalking
  have hrefers (last : Option UInt16) :
      Leads (Refers layout name (· = (TypeName.ofDotted text).referent))
      (fun _ => Refers layout name (· = (TypeName.ofDotted text).referent))
      ((handlers c).follow (layout.constants.loaders name) last back) :=
    refers_leads (Minding.elementary.lockstep.toWalking.follow _ _ _)
      ((Holding.stepwise (Collected.Has.kept c _ True _).toKept trivial).toWalking.follow _ _ _)
  -- the instructions in front, the load, the call, and the instructions behind
  rw [Handlers.walk_eq, hsplit, Handlers.follow_append, bind_assoc]
  refine (hstrolls.follow _ none front).leads.bind fun last => ?_
  rw [Handlers.follow_cons, bind_assoc, Handlers.act, bind_assoc]
  refine (Minding.constant constant).leads.bind fun _ => ?_
  rw [pure_bind, Handlers.follow_cons, bind_assoc]
  refine (act_leads htarget htext hnames hgranted).bind fun next => ?_
  exact (hrefers next).bind fun _ => halt_leads _

/-! ### Down to the walk -/

/-- A class that was referred to stays so in a table of attributes, given that it does in the bodies
among them. -/
theorem refers_attributesOf {onCode : Decode Unit}
    (hminding : Minding layout name (fun _ _ => True) onCode)
    (hholding : Holding layout.constants (Collected.Has types) onCode)
    (site : Site) (access : Access)
    (raws : List RawAttribute) :
    Leads (Refers layout name types) (fun _ => Refers layout name types)
      (attributesOf c onCode site access raws) :=
  refers_leads (.attributesOf hminding site access raws)
    (.attributesOf (Collected.Has.kept c _ True types) hholding site access raws)

/-- It stays so in what is said of a member, be it a field or a method. -/
theorem refers_afterOpening (kind : LastMember) (header : MemberHeader) (raws : List RawAttribute) :
    Leads (Refers layout name types) (fun _ => Refers layout name types)
      (afterOpening c kind header raws) := by
  cases kind with
  | field => exact refers_attributesOf (.pure ()) (.pure ()) _ _ raws
  | method =>
    refine .look fun s _ => ?_
    dsimp only
    split
    · exact refers_attributesOf Minding.code
        (.code (Collected.Has.kept c _ True types) trivial) _ _ raws
    · exact refers_attributesOf (.pure ()) (.pure ()) _ _ raws

/-- And it stays so in a whole member, whatever the member mentions itself. -/
theorem refers_memberOf (kind : LastMember) (raw : RawMember) :
    Leads (Refers layout name types) (fun _ => Refers layout name types) (memberOf c kind raw) := by
  have hkept := (Collected.Has.kept c layout.constants True types).toKept
  rw [memberOf_eq]
  refine (refers_leads ((Lasting.asking _).memberHeaderOf raw)
    ((Holding.recording hkept).memberHeaderOf raw)).bind fun header => ?_
  refine (refers_leads (.openMember kind header fun _ _ _ => trivial)
    (.openMember hkept kind header)).bind fun _ => ?_
  exact refers_afterOpening kind header raw.attributes

section Loading

variable (loading : layout.Loading name)
  (hfirst : ∀ earlier < loading.call, layout.constants.namesMethod loading.loader earlier = false)
  (hgranted : ∀ table, ¬c.namer.Withholds table loading.type)
include hfirst hgranted

/-- The method body: the instructions in front of the load are walked through, and what comes behind
it keeps what was referred to. -/
theorem codeOf_leads :
    Leads (Strolls layout name) (fun _ => Refers layout name (· = loading.type))
      (codeOf c loading.code) := by
  have hkept := Collected.Has.kept c layout.constants True (· = loading.type)
  refine .look fun s hs => ?_
  rw [show s.targets = _ from hs.attention.2]
  refine (walk_leads loading.split (Pool.contain_loaders loading.loader_mem loading.resolves hfirst)
    loading.string loading.names hgranted).bind fun _ => ?_
  refine (Leads.forM fun handler _ => refers_leads (Minding.constant handler.2)
    (Holding.constant hkept.toKept handler.2)).bind fun _ => ?_
  exact refers_attributesOf (.pure ()) (.pure ()) _ _ _

/-- The attribute with the body is found by its name, and the body is walked through. -/
theorem attributeOf_leads (site : Site) (access : Access) :
    Leads (Strolls layout name) (fun _ => Refers layout name (· = loading.type))
      (attributeOf c (code c) site access loading.raw) := by
  intro s _ t hs hrun
  obtain ⟨text, htext, hbody⟩ := attributeOf_eq_ok_iff.1 hrun
  cases ((Pool.Question.utf8 _).ok_of_like hs.pool htext).symm.trans loading.raw_name
  obtain ⟨v, hinner, rfl⟩ := ok_of_within hbody
  obtain ⟨found, rest, hfits, hfront, hact⟩ := ((Parses.code c).eq_ok_iff _ _ _).1 hinner
  obtain ⟨rfl, -⟩ := Form.Distinct.code loading.fits hfits (loading.body.symm.trans hfront)
  have hinside : Strolls layout name { s with
      input := ⟨0 + (RawCode.form.encode loading.code).length, rest⟩ } := hs
  exact codeOf_leads loading hfirst hgranted _ _ v hinside hact

/-- The method has the attribute somewhere in its table, so the class has been referred to in the
end. -/
theorem methodOf_leads :
    Leads (Strolls layout name) (fun _ => Refers layout name (· = loading.type))
      (memberOf c .method loading.method) := by
  rw [memberOf_eq]
  refine ((Lasting.asking _).memberHeaderOf loading.method).leads.bind fun header => ?_
  refine (Minding.openMember .method header fun _ _ h => ⟨rfl, h.2⟩).leads.bind fun _ => ?_
  refine .look fun s hs => ?_
  dsimp only
  rw [if_pos (show s.walking = true from hs.attention.1)]
  refine .forM_of_mem loading.raw_mem (fun raw _ => (Minding.attributeOf .code _ _ raw).leads)
    (attributeOf_leads loading hfirst hgranted _ _) fun raw _ => ?_
  exact refers_leads (.attributeOf .code _ _ raw)
    (.attributeOf (Collected.Has.kept c _ True _)
      (.code (Collected.Has.kept c _ True _) trivial) _ _ raw)

end Loading

/-- A class of this type is loaded by name somewhere, by the least reference to a method that does
so, and its package is never withheld. -/
def Summons (namer : Namer) (layout : Layout) (name type : TypeName) : Prop :=
  ∃ loading : layout.Loading name,
    (∀ earlier < loading.call, layout.constants.namesMethod loading.loader earlier = false) ∧
      (∀ table, ¬namer.Withholds table loading.type) ∧ loading.type = type

/-- All methods together refer to all classes that are loaded, since what one of them refers to is
kept by those behind it. -/
theorem methods_leads :
    Leads (Strolls layout name) (fun _ => Refers layout name (Summons c.namer layout name))
      (layout.methods.forM (memberOf c .method)) := by
  have hstrolls (raw : RawMember) :
      Leads (Strolls layout name) (fun _ => Strolls layout name) (memberOf c .method raw) :=
    (Minding.memberOf .method raw fun _ _ h => ⟨rfl, h.2⟩).leads
  intro s value t hs hrun
  have ht : Strolls layout name t := Leads.forM (fun raw _ => hstrolls raw) s value t hs hrun
  refine ⟨ht.imp fun _ _ _ => trivial, ht.pool, ?_⟩
  rintro _ ⟨loading, hfirst, hgranted, rfl⟩
  have hrefers : Refers layout name (· = loading.type) t :=
    Leads.forM_of_mem loading.method_mem (fun raw _ => hstrolls raw)
      (methodOf_leads loading hfirst hgranted)
      (fun raw _ => refers_memberOf .method raw) s value t hs hrun
  exact hrefers.2.2 _ rfl

/-- The class as a whole refers to them, if bodies are walked through, be it from the beginning or
for something in the layout. -/
theorem classBodyOf_leads {walking orphan : Bool} (hcrawled : walking = true ∨ layout.Walks)
    (horphan : ∀ slot, layout.constants.Orphan slot → orphan = true) :
    Leads (fun s => s.scene.Minds layout name fun found _ => found = walking)
      (fun record _ => record.name = name ∧
        ∀ type, Summons c.namer layout name type → type ∈ record.references)
      (classBodyOf c orphan layout.toRawBody) := by
  have hkept := Collected.Has.kept c layout.constants True (Summons c.namer layout name)
  refine Leads.record.bind fun record => ?_
  refine (Minding.heading.superclassAt record.access _).leads.bind fun _ => ?_
  refine (Minding.heading.interfacesOf record.access _).leads.bind fun _ => ?_
  have hfields : Leads (fun s => s.scene.Minds layout name fun found _ => found = walking)
      (fun _ s => s.scene.Minds layout name fun found _ =>
        walking = true ∨ KeepsLiteral layout → found = true)
      (layout.fields.forM (memberOf c .field)) := fun s value t hs hrun =>
    fields_minds s value t (hs.imp fun _ _ hsame hwalking => hsame.trans hwalking) hrun
  refine hfields.bind fun _ => (prepareWalks_minds fun found _ hfound => ?_).bind fun _ => ?_
  · -- each reason for a walk has been noticed by now
    obtain hwalking | @⟨_, hslot⟩ | @⟨field, text, hfield, htext, hliteral⟩ |
      @⟨_, hmajor, hloader⟩ := hcrawled
    · exact .inl (hfound (.inl hwalking))
    · exact .inr (.inl (horphan _ hslot))
    · exact .inl (hfound (.inr ⟨field, hfield, text, htext, hliteral⟩))
    · exact .inr (.inr ⟨hmajor, hloader⟩)
  refine methods_leads.bind fun _ => ?_
  refine (refers_leads (.tell .membersEnd) (Holding.tell hkept.toKept .membersEnd)).bind fun _ => ?_
  have hlast : Leads (Refers layout name (Summons c.namer layout name))
      (fun _ => Refers layout name (Summons c.namer layout name))
      (modify fun s : Decoder => { s with last := none }) :=
    .modify fun _ hs => ⟨⟨hs.1.pool, hs.1.header, trivial⟩, hs.2⟩
  refine hlast.bind fun _ => ?_
  refine (refers_attributesOf (.pure ()) (.pure ()) .type record.access _).bind fun _ => ?_
  intro s record t hs hrun
  obtain ⟨rfl, found, hfound, rfl⟩ := ok_of_finish hrun
  exact ⟨(hs.1.header found hfound).2, hs.2.2⟩

end Decode

namespace Session

/-- A class file from which a record comes is written from a layout, and what the decoding does is
what is done with the layout, whoever listens. -/
theorem layout_of_run {options : Options} {listener : Option Listener} {bytes : Bytes}
    {session : Session} {record : Record}
    (h : (session.run options listener bytes).outcome = .ok (some record)) :
    ∃ (layout : Layout) (trailing : Bytes), Layout.form.Fits layout ∧
      bytes = Layout.form.encode layout ++ trailing ∧
      ∃ (header : Record) (orphan : Bool) (s u v w : Decoder),
        s.scene = (session.decoder options listener bytes).scene ∧
        Decode.classHeaderOf ⟨options.namer, listener⟩ layout.toRawHeader s =
          .ok (header, orphan) u ∧
        v.scene = u.scene ∧
        Decode.classBodyOf ⟨options.namer, listener⟩ orphan layout.toRawBody v = .ok record w := by
  let c : Context := ⟨options.namer, listener⟩
  obtain ⟨_, hrun, -⟩ := classFile_of_run h
  rw [Decode.classFile_eq] at hrun
  obtain ⟨⟨header, orphan⟩, u, hheader, hrest⟩ := EStateM.ok_of_bind hrun
  obtain ⟨head, rest, hhead, hfront, hopen⟩ :=
    ((Decode.Parses.classHeader c).eq_ok_iff _ _ u).1 hheader
  obtain ⟨w, hbody, -⟩ := Decode.afterHeader_ok hrest
  obtain ⟨body, trailing, hfits, hbehind, hact⟩ :=
    ((Decode.Parses.classBody c orphan).eq_ok_iff _ _ w).1 hbody
  have hinput : u.input = ⟨0 + (RawHeader.form.encode head).length, rest⟩ :=
    Decode.input_of_unfed ((Decode.Parses.classHeader c).unfed head hhead) hopen
  have htold : (u.told c (.classStart header)).input = u.input := by
    rw [Decoder.told]
    cases c.listener <;> rfl
  rw [htold, hinput] at hbehind
  refine ⟨⟨head, body⟩, trailing, ⟨hhead, hfits⟩, ?_, header, orphan, _, u, _, w, ?_, hopen, ?_,
    hact⟩
  · refine (hfront.trans (congrArg _ hbehind)).trans ?_
    exact (List.append_assoc _ _ _).symm
  · rfl
  · exact Decoder.scene_told c (.classStart header) u

/-- **A class that is loaded by name is referred to**, if method bodies are walked through: wherever
a string constant is loaded and the next instruction calls a method that loads classes, by the least
reference of the pool to that method. The only exception is a class whose package may be handed out
as the primitive one. -/
theorem run_loads {options : Options} {listener : Option Listener}
    {bytes : Bytes} {session : Session}
    {record : Record} (h : (session.run options listener bytes).outcome = .ok (some record)) :
    ∃ layout trailing, Layout.form.Fits layout ∧ bytes = Layout.form.encode layout ++ trailing ∧
      (layout.Crawled options listener → ∀ loading : layout.Loading record.name,
        (∀ earlier < loading.call, layout.constants.namesMethod loading.loader earlier = false) →
        loading.type ∈ record.references ∨
          ∃ table, options.namer.Withholds table loading.type) := by
  obtain ⟨layout, trailing, hfits, hbytes, header, orphan, s, u, v, w, hs, hheader, hv, hbody⟩ :=
    layout_of_run h
  refine ⟨layout, trailing, hfits, hbytes, fun hcrawled loading hfirst => ?_⟩
  have hrecord : s.record = none := congrArg Decoder.Scene.record hs
  have hwalking : s.walking = (options.walkForListener && listener.isSome) :=
    congrArg Decoder.Scene.walking hs
  obtain ⟨hminds, horphan⟩ := Decode.minds_of_classHeaderOf hrecord hheader
  have hwalks : s.walking = true ∨ layout.Walks :=
    hcrawled.imp_left fun hlistens => hwalking.trans (Bool.and_eq_true_iff.2 hlistens)
  obtain ⟨hname, hreferences⟩ :=
    Decode.classBodyOf_leads hwalks horphan v record w (hv ▸ hminds) hbody
  rw [← hname] at hreferences
  by_cases hwithheld : ∃ table, options.namer.Withholds table loading.type
  · exact .inr hwithheld
  · exact .inl (hreferences _ ⟨loading, hfirst, not_exists.1 hwithheld, rfl⟩)

/-- The body of a method that loads two classes by name, with the two references that the pool has
to the same method. -/
def codeWithTwo : RawCode where
  maxStack := 1
  maxLocals := 1
  code := [18, 17, 184, 0, 12, 18, 14, 184, 0, 18, 177]
  handlers := []
  attributes := []

/-- A class `A` of the last version without class literals, with a method that loads `q.C` and then
`p.B` by name. -/
def loadingTwice : Layout where
  minor := 0
  major := 48
  pool := [0, 19, 1, 0, 1, 65, 7, 0, 1, 1, 0, 1, 109, 1, 0, 3, 40, 41, 86, 12, 0, 3, 0, 4, 10,
    0, 2, 0, 5, 1, 0, 15, 106, 97, 118, 97, 47, 108, 97, 110, 103, 47, 67, 108, 97, 115, 115, 7,
    0, 7, 1, 0, 7, 102, 111, 114, 78, 97, 109, 101, 1, 0, 37, 40, 76, 106, 97, 118, 97, 47, 108,
    97, 110, 103, 47, 83, 116, 114, 105, 110, 103, 59, 41, 76, 106, 97, 118, 97, 47, 108, 97,
    110, 103, 47, 67, 108, 97, 115, 115, 59, 12, 0, 9, 0, 10, 10, 0, 8, 0, 11, 1, 0, 3, 112, 46,
    66, 8, 0, 13, 1, 0, 4, 67, 111, 100, 101, 1, 0, 3, 113, 46, 67, 8, 0, 16, 10, 0, 8, 0, 11]
  access := 0x21
  name := 2
  superclass := 0
  interfaces := []
  fields := []
  methods := [⟨1, 3, 4, [⟨15, RawCode.form.encode codeWithTwo⟩]⟩]
  attributes := []

/-- The first class is loaded by the first reference, -/
def loadingFirst (name : TypeName) : loadingTwice.Loading name where
  method := ⟨1, 3, 4, [⟨15, RawCode.form.encode codeWithTwo⟩]⟩
  raw := ⟨15, RawCode.form.encode codeWithTwo⟩
  code := codeWithTwo
  trailing := []
  front := []
  constant := 17
  call := 12
  back := [.load 14, .invokeStatic 18, .other]
  text := "q.C"
  loader := ⟨"java/lang/Class", "forName", Decode.loaderDescriptor⟩
  method_mem := List.mem_singleton_self _
  raw_mem := List.mem_singleton_self _
  raw_name := by decide +kernel
  fits := by decide +kernel
  body := (List.append_nil _).symm
  split := by decide +kernel
  string := by decide +kernel
  names := by decide +kernel
  loader_mem := List.mem_cons_self
  resolves := by decide +kernel

/-- and the second class by the second one. -/
def loadingSecond (name : TypeName) : loadingTwice.Loading name :=
  { loadingFirst name with
    front := [.load 17, .invokeStatic 12]
    constant := 14
    call := 18
    back := [.other]
    text := "p.B"
    split := show (Instruction.row codeWithTwo.code).actions =
      [.load 17, .invokeStatic 12] ++ .load 14 :: .invokeStatic 18 :: [.other] by decide +kernel
    string := by decide +kernel
    names := by decide +kernel
    resolves := show loadingTwice.constants.namesMethod
      ⟨"java/lang/Class", "forName", Decode.loaderDescriptor⟩ 18 = true by decide +kernel }

theorem loadingFirst_type (name : TypeName) : (loadingFirst name).type = ⟨"q/C"⟩ :=
  show (TypeName.ofDotted "q.C").referent = ⟨"q/C"⟩ by decide +kernel

theorem loadingSecond_type (name : TypeName) : (loadingSecond name).type = ⟨"p/B"⟩ :=
  show (TypeName.ofDotted "p.B").referent = ⟨"p/B"⟩ by decide +kernel

theorem loadingFirst_least (name : TypeName) : ∀ earlier < (loadingFirst name).call,
    loadingTwice.constants.namesMethod (loadingFirst name).loader earlier = false := by
  intro earlier h
  have hall : ∀ slot < 12, loadingTwice.constants.namesMethod
      ⟨"java/lang/Class", "forName", Decode.loaderDescriptor⟩ (UInt16.ofNat slot) = false := by
    decide +kernel
  have hslot := hall earlier.toNat (UInt16.lt_iff_toNat_lt.1 h)
  rwa [UInt16.ofNat_toNat] at hslot

theorem loadingTwice_crawled : loadingTwice.Crawled {} none :=
  .inr (@Layout.Walks.loader _ ⟨"A"⟩ rfl (by decide +kernel))

/-- The decoding of this class gives these references: the class behind the second call is not among
them. -/
theorem loadingTwice_references :
    ((Session.run {} none (Layout.form.encode loadingTwice) {}).outcome.toOption.bind id).map
      (·.references.toList) = some [⟨"A"⟩, ⟨"java/lang/Class"⟩, ⟨"java/lang/String"⟩, ⟨"q/C"⟩] := by
  decide +kernel

/-- The class `q.C` is referred to, and its package is never withheld, while the other one is loaded
by a call that is not recognised. -/
theorem run_loads_of_forName :
    ∃ record,
      (Session.run {} none (Layout.form.encode loadingTwice) {}).outcome = .ok (some record) ∧
      loadingTwice.Crawled {} none ∧
      (∀ earlier < (loadingFirst record.name).call, loadingTwice.constants.namesMethod
        (loadingFirst record.name).loader earlier = false) ∧
      (∀ table, ¬Namer.shared.Withholds table (loadingFirst record.name).type) ∧
      (loadingFirst record.name).type = ⟨"q/C"⟩ ∧
      (loadingFirst record.name).type ∈ record.references := by
  obtain ⟨record, hrun, -⟩ := outcome_of_map loadingTwice_references
  obtain ⟨layout, trailing, hfits, hfile, hloads⟩ := @run_loads {} none _ {} record hrun
  have hfile : Layout.form.encode loadingTwice ++ [] = Layout.form.encode layout ++ trailing := by
    rw [List.append_nil]
    exact hfile
  obtain ⟨rfl, rfl⟩ := Form.Distinct.layout (by decide +kernel) hfits hfile
  have hleast := loadingFirst_least record.name
  have htype := loadingFirst_type record.name
  have hgranted : ∀ table, ¬Namer.shared.Withholds table (loadingFirst record.name).type := by
    intro table
    refine (loadingFirst record.name).not_withholds_shared ?_
    rw [htype]
    decide +kernel
  exact ⟨record, hrun, loadingTwice_crawled, hleast, hgranted, htype,
    (hloads loadingTwice_crawled _ hleast).resolve_right (not_exists.2 hgranted)⟩

/-- The class `p.B` is not referred to, though its package is never withheld: the second reference
to the method that loads it goes unnoticed. -/
theorem run_loads_differs :
    ∃ record,
      (Session.run {} none (Layout.form.encode loadingTwice) {}).outcome = .ok (some record) ∧
      loadingTwice.Crawled {} none ∧ (loadingSecond record.name).type = ⟨"p/B"⟩ ∧
      (∀ table, ¬Namer.shared.Withholds table (loadingSecond record.name).type) ∧
      (loadingSecond record.name).type ∉ record.references := by
  obtain ⟨record, hrun, hreferences⟩ := outcome_of_map loadingTwice_references
  have htype := loadingSecond_type record.name
  refine ⟨record, hrun, loadingTwice_crawled, htype, fun table => ?_, ?_⟩
  · refine (loadingSecond record.name).not_withholds_shared ?_
    rw [htype]
    decide +kernel
  · rw [htype, ← Std.ExtTreeSet.mem_toList, hreferences]
    decide +kernel

end Session

end ClassFile
