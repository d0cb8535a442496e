import Mathlib.Data.List.FinRange
import ClassFile.Batch.Schedule
import ClassFile.Proofs.Catalogs
import ClassFile.Proofs.SharedNamer

/-!
# Files of a batch do not disturb each other

Whatever the order in which the files of a batch are decoded, and whatever other decodings ask the
namer meanwhile, what comes of a file is what comes of it when it is decoded by itself. This needs
that packages are handed out without regard to what was handed out before: then the table that the
decodings share does not show, and the sessions are new or have been left clean
(`ClassFile.Session.decode_beside`).

So a batch is made of its entries, one for each file, and says of the order in which they came only
what the order of the files says (`ClassFile.Batch.decodeAll_isolated`). What is true of a batch is
then shown along the list of entries, and the catalog that is made of it is the one that calls for
its classes make (`ClassFile.Catalog.ofCalls`).

The usual namer does regard what was handed out before, in the one entry that the primitive package
shares with its namesake. Files that do not have the namesake filed do not disturb each other with
that namer either (`ClassFile.Batch.decodeAll_shared`).
-/

namespace ClassFile

variable {options : Options}

/-! ### Decodings with a common table -/

/-- A namer amid others agrees with itself, if it is pure: whatever the others ask for does not
change its answers. -/
theorem Namer.Amid.agrees {namer view : Namer} (h : namer.Amid view) (hpure : namer.Pure) :
    view.Agrees namer := by
  intro type table apart
  obtain ⟨found, hfound⟩ := h type table
  exact hfound.trans (hpure.agrees type found apart)

/-- A decoding on a clean session, whatever its table is, has the outcome of a decoding by itself,
and leaves the session clean. -/
theorem Session.decode_beside {options' : Options} (hnamer : options.namer.Agrees options'.namer)
    (hwalk : options.walkForListener = options'.walkForListener) {session : Session}
    (hclean : session.Clean) (bytes : Bytes) :
    (session.decode options bytes).1 = (Session.decode options' bytes {}).1 ∧
      (session.decode options bytes).2.Clean := by
  obtain ⟨houtcome, -, hafter, -⟩ := run_beside hnamer hwalk hclean .none bytes
  refine ⟨?_, hafter⟩
  rw [Session.decode, Session.decode, houtcome]

/-- A session of which only the table is given is clean. -/
theorem Session.clean_of_table (table : PackageTable) : Clean { table } :=
  ⟨fun _ hpool => absurd hpool List.not_mem_nil, fun _ => rfl⟩

namespace Batch

/-! ### One entry for each file -/

/-- One file after the other is decoded. What is expected of the session for a file to be decoded as
it is by itself holds again when that is done. -/
theorem decodeAll_eq_alone {I : Session → Prop} {sources : List Source}
    (hdecode : ∀ source ∈ sources, ∀ session, I session →
      (session.decode options source.bytes).1 = (Session.decode options source.bytes {}).1 ∧
        I (session.decode options source.bytes).2)
    {session : Session} (hsession : I session) :
    decodeAll options sources session = alone options sources := by
  induction sources generalizing session with
  | nil => rfl
  | cons source sources ih =>
    obtain ⟨hsource, hsources⟩ := List.forall_mem_cons.1 hdecode
    obtain ⟨houtcome, hafter⟩ := hsource session hsession
    rw [decodeAll]
    dsimp only
    rw [houtcome, ih hsources hafter, alone, alone, List.map_cons, Source.alone]
    cases (Session.decode options source.bytes {}).1 <;> rfl

variable {sources : List Source}

/-- What comes of the file whose turn it is. -/
def Turn.outcome (options : Options) (sources : List Source)
    (turn : Turn options.namer sources.length) (table : PackageTable) :
    Except Fault Record × Session :=
  Session.decode { options with namer := turn.view } (sources.get turn.place).bytes { table }

/-- With such a table a turn comes to what comes of its file by itself, and the next table is such a
one, too. -/
def Turn.Apart (options : Options) (sources : List Source) (I : PackageTable → Prop)
    (turn : Turn options.namer sources.length) : Prop :=
  ∀ table, I table →
    (turn.outcome options sources table).1 =
        (Session.decode options (sources.get turn.place).bytes {}).1 ∧
      I (turn.outcome options sources table).2.table

/-- What comes of a file is put down in its place, and nothing else changes. -/
theorem entries_after {I : PackageTable → Prop} {progress : Progress sources.length}
    {turn : Turn options.namer sources.length} (hturn : turn.Apart options sources I)
    (htable : I progress.table) (place : Fin sources.length) :
    (progress.after options sources turn).entries place =
      if place = turn.place then some (sources[place].alone options)
      else progress.entries place := by
  obtain ⟨houtcome, -⟩ := hturn progress.table htable
  rw [Progress.after]
  dsimp only
  split
  · rename_i hplace
    subst hplace
    exact congrArg (fun outcome => some (sources[turn.place].entry outcome)) houtcome
  · rfl

/-- The files whose turn has come have their entries, each as if it were decoded alone, and the
others have none yet. By induction over the turns; the invariant of the table is what every turn
needs and keeps. -/
theorem entries_foldl {I : PackageTable → Prop}
    {turns : List (Turn options.namer sources.length)}
    (hturns : ∀ turn ∈ turns, turn.Apart options sources I) {progress : Progress sources.length}
    (htable : I progress.table) (place : Fin sources.length) :
    (turns.foldl (Progress.after options sources) progress).entries place =
      if place ∈ turns.map Turn.place then some (sources[place].alone options)
      else progress.entries place := by
  induction turns generalizing progress with
  | nil => rfl
  | cons turn turns ih =>
    obtain ⟨hturn, hlater⟩ := List.forall_mem_cons.1 hturns
    have hnext : I (progress.after options sources turn).table :=
      (hturn progress.table htable).2
    rw [List.foldl_cons, ih hlater hnext, entries_after hturn htable, List.map_cons]
    by_cases hplace : place ∈ turns.map Turn.place
    · rw [if_pos hplace, if_pos (List.mem_cons_of_mem _ hplace)]
    · simp only [List.mem_cons, hplace, or_false, if_false]

/-- The order in which the files are decoded does not show, as long as every turn comes to what the
file comes to alone. -/
theorem run_eq_alone {I : PackageTable → Prop} {schedule : Schedule options.namer sources.length}
    (hturns : ∀ turn ∈ schedule.turns, turn.Apart options sources I) {table : PackageTable}
    (htable : I table) : schedule.run options sources table = alone options sources := by
  have hentries : (schedule.turns.foldl (Progress.after options sources)
      ⟨table, fun _ => none⟩).entries = some ∘ fun place => sources[place].alone options := by
    funext place
    rw [@entries_foldl _ _ I _ hturns ⟨table, fun _ => none⟩ htable,
      if_pos (schedule.perm.mem_iff.2 (List.mem_finRange place))]
    rfl
  have hall : (List.finRange sources.length).map (fun place => sources[place].alone options) =
      sources.map (Source.alone options) := by
    have hsources := congrArg (List.map (Source.alone options)) (List.map_getElem_finRange sources)
    rwa [List.map_map] at hsources
  rw [Schedule.run, hentries, List.filterMap_eq_map, hall, alone]

/-- Every file has one entry: either its class is there or its failure is. -/
theorem length_ofEntries (entries : List Outcome) :
    (ofEntries entries).classes.length + (ofEntries entries).failures.length = entries.length := by
  induction entries with
  | nil => rfl
  | cons entry entries ih =>
    cases entry with
    | inl parsed => exact (Nat.add_right_comm _ 1 _).trans (congrArg (· + 1) ih)
    | inr failure => exact congrArg (· + 1) ih

/-- Files that are decoded one by one are independent: two lists of them give their classes and
failures in a row. -/
theorem alone_append (options : Options) (front back : List Source) :
    alone options (front ++ back) =
      ⟨(alone options front).classes ++ (alone options back).classes,
        (alone options front).failures ++ (alone options back).failures⟩ := by
  rw [alone, List.map_append, ofEntries, List.filterMap_append, List.filterMap_append]
  rfl

/-- A file that fails adds its failure, and nothing else. -/
theorem alone_cons_of_failure {source : Source} {failure : Failure}
    (h : source.alone options = .inr failure) (sources : List Source) :
    alone options (source :: sources) =
      ⟨(alone options sources).classes, failure :: (alone options sources).failures⟩ := by
  rw [alone, List.map_cons, h]
  rfl

/-! ### The catalog of a batch -/

/-- The catalog of a batch is the one that gets its classes in order. -/
theorem catalog_eq (batch : Batch) :
    batch.catalog =
      .ofCalls (batch.classes.map fun parsed => (parsed.source, parsed.record)) := by
  rw [catalog, Catalog.ofCalls, Catalog.insertAll, List.foldl_map]

/-- The first class of a name is kept, as by every catalog. -/
theorem get?_catalog (batch : Batch) (name : TypeName) :
    batch.catalog.get? name =
      (batch.classes.find? fun parsed => parsed.record.name = name).map Parsed.record := by
  rw [catalog_eq, Catalog.get?_ofCalls, List.find?_map, Option.map_map]
  rfl

/-- The sources of a class are those of all classes of its name, each at its first place. -/
theorem sources_catalog (batch : Batch) (name : TypeName) :
    batch.catalog.sources name =
      ((batch.classes.filter fun parsed => parsed.record.name = name).map
        Parsed.source).eraseDups := by
  rw [catalog_eq, Catalog.sources_ofCalls, List.filter_map, List.map_map]
  rfl

/-- **The files of a batch do not disturb each other.** Decoded one after the other or in any order,
each of them has the one entry that it has by itself, and the entries are in the order of the files.
A file that fails can be left out or put in, and no other entry changes. The catalog keeps the first
class of a name and all sources in which that name was found. -/
theorem decodeAll_isolated (hnamer : options.namer.Pure) (sources : List Source) :
    let batch := alone options sources
    (∀ session : Session, session.Clean → decodeAll options sources session = batch) ∧
    (∀ (schedule : Schedule options.namer sources.length) (table : PackageTable),
      schedule.run options sources table = batch) ∧
    batch.classes.length + batch.failures.length = sources.length ∧
    (∀ front source back failure, sources = front ++ source :: back →
      source.alone options = .inr failure →
      batch.classes = (alone options (front ++ back)).classes ∧
      (alone options (front ++ back)).failures =
        (alone options front).failures ++ (alone options back).failures ∧
      batch.failures = (alone options front).failures ++ failure :: (alone options back).failures) ∧
    ∀ name,
      batch.catalog.get? name =
        (batch.classes.find? fun parsed => parsed.record.name = name).map Parsed.record ∧
      batch.catalog.sources name =
        ((batch.classes.filter fun parsed => parsed.record.name = name).map
          Parsed.source).eraseDups := by
  intro batch
  have hturns (turn : Turn options.namer sources.length) :
      turn.Apart options sources fun _ => True := fun table _ =>
    ⟨(@Session.decode_beside { options with namer := turn.view } options
      (turn.amid.agrees hnamer) rfl _ (Session.clean_of_table table) _).1, trivial⟩
  refine ⟨fun session hclean => decodeAll_eq_alone (fun source _ _ hclean =>
      Session.decode_beside hnamer.agrees rfl hclean source.bytes) hclean,
    fun schedule table => run_eq_alone (fun turn _ => hturns turn) trivial, ?_, ?_,
    fun name => ⟨get?_catalog batch name, sources_catalog batch name⟩⟩
  · exact (length_ofEntries _).trans (List.length_map _)
  · rintro front source back failure rfl hfailure
    have hbatch : batch = ⟨(alone options front).classes ++ (alone options back).classes,
        (alone options front).failures ++ failure :: (alone options back).failures⟩ := by
      rw [show batch = alone options (front ++ source :: back) from rfl, alone_append,
        alone_cons_of_failure hfailure]
    rw [hbatch, alone_append]
    exact ⟨rfl, rfl, rfl⟩

/-! ### Batches with the usual namer -/

/-- Decoded by itself, the file does not have the namesake of the primitive package filed. -/
def Source.Spares (walk : Bool) (source : Source) : Prop :=
  Namer.Spared (Session.decode ⟨.shared, walk⟩ source.bytes {}).2.table

instance (walk : Bool) (source : Source) : Decidable (source.Spares walk) :=
  inferInstanceAs (Decidable (Namer.Spared _))

/-- **With the usual namer** the files of a batch do not disturb each other either, if none of them
has the namesake of the primitive package filed: then it makes no difference that packages are
handed out from one table, also if the decodings ask for them in turn. -/
theorem decodeAll_shared {walk : Bool} {sources : List Source}
    (hsources : ∀ source ∈ sources, source.Spares walk) :
    (∀ session : Session, session.Clean → PackageTable.Leads {} session.table →
      decodeAll ⟨.shared, walk⟩ sources session = alone ⟨.shared, walk⟩ sources) ∧
    ∀ schedule : Schedule .shared sources.length, (∀ turn ∈ schedule.turns, turn.view.Mild) →
      ∀ table, PackageTable.Leads {} table →
        schedule.run ⟨.shared, walk⟩ sources table = alone ⟨.shared, walk⟩ sources := by
  constructor
  · intro session hclean htable
    let Tame (session : Session) : Prop := session.Clean ∧ PackageTable.Leads {} session.table
    refine @decodeAll_eq_alone _ Tame _ (fun source hsource session hsession => ?_) session
      ⟨hclean, htable⟩
    exact Session.decode_mild Namer.shared_mild walk hsession.1 hsession.2 (hsources source hsource)
  · intro schedule hviews table htable
    refine run_eq_alone (fun turn hturn table htable => ?_) htable
    obtain ⟨houtcome, -, hafter⟩ := Session.decode_mild (hviews turn hturn) walk
      (Session.clean_of_table table) htable (hsources _ (List.getElem_mem turn.place.isLt))
    exact ⟨houtcome, hafter⟩

/-- The same class from two sources. -/
def twice (source : String) : Source :=
  ⟨source, [0xCA, 0xFE, 0xBA, 0xBE, 0, 0, 0, 52, 0, 3, 1, 0, 1, 65, 7, 0, 1,
    0, 0x21, 0, 2, 0, 0, 0, 0, 0, 0, 0, 0, 0, 0]⟩

/-- Three files from the last to the first. -/
def backwards : Schedule .exact 3 where
  turns := [2, 1, 0].map fun place => ⟨place, .exact, fun _ table => ⟨table, rfl⟩⟩
  perm := by decide

/-- A class from two sources, and a file between that is empty. None of them has the namesake of the
primitive package filed, so with the usual namer it is the same. -/
theorem decodeAll_isolated_of_duplicates :
    let options : Options := ⟨.exact, true⟩
    let sources := [twice "a.class", ⟨"b.class", []⟩, twice "c.class"]
    let batch := alone options sources
    options.namer.Pure ∧ decodeAll options sources {} = batch ∧
      (∀ table, backwards.run options sources table = batch) ∧
      batch.classes = (alone options [twice "a.class", twice "c.class"]).classes ∧
      batch.catalog.sources ⟨"A"⟩ = ["a.class", "c.class"] ∧
      decodeAll ⟨.shared, true⟩ sources {} = alone ⟨.shared, true⟩ sources := by
  intro options sources batch
  have hnamer : options.namer.Pure := ⟨.ofType, fun _ _ => rfl⟩
  obtain ⟨hall, hany, -, hwithout, hcatalog⟩ := decodeAll_isolated hnamer sources
  have hspares : ∀ source ∈ sources, source.Spares true := by decide +kernel
  refine ⟨hnamer, hall {} Session.clean_new, hany backwards, ?_, (hcatalog ⟨"A"⟩).2.trans ?_,
    (decodeAll_shared hspares).1 {} Session.clean_new (.refl {})⟩
  · exact (hwithout [twice "a.class"] ⟨"b.class", []⟩ [twice "c.class"] _ rfl rfl).1
  · decide +kernel

end Batch

end ClassFile
