import ClassFile.Proofs.References
import ClassFile.Proofs.Walks

/-!
# No reference is made up

Every type that a class refers to is named in its pool (`ClassFile.Session.decode_origins`): by a
class constant, in a descriptor or signature that is one of the texts of the pool, or, if the method
bodies of the class are walked through, by a string constant. A walk is the only thing that comes to
string constants, and whether there is one is decided by what is in the file
(`ClassFile.Layout.Walks`).

So what is known of all that was collected (`ClassFile.Decode.classFile_collects`) is known in more
detail here, where there is no listener: in a class that is not walked through nothing comes from
string constants (`ClassFile.Decode.classOf_collects`).
-/

namespace ClassFile

namespace Decode

open Decoder

/-- If the step succeeds, then the decoder still keeps to the layout, and what is collected is still
like that. -/
abbrev Gleaning (layout : Layout) (K : Collected → Prop) {α : Type} (m : Decode α) : Prop :=
  Leads (fun s => s.Heeds layout ∧ s.Holds layout.constants K)
    (fun _ s => s.Heeds layout ∧ s.Holds layout.constants K) m

section Kept

variable {namer : Namer} {layout : Layout} {K : Collected → Prop}

theorem gleaning {α : Type} {m : Decode α} (hheeding : Heeding layout m)
    (hholding : Holding layout.constants K m) : Gleaning layout K m :=
  (hheeding.and hholding.keeps).leads

variable (h : Collected.KeptExposed ⟨namer, none⟩ layout.constants layout.Walks K)
include h

theorem gleaning_attributesOf {onCode : Decode Unit} (hheeding : Heeding layout onCode)
    (hholding : Holding layout.constants K onCode) (site : Site) (access : Access)
    (raws : List RawAttribute) :
    Gleaning layout K (attributesOf ⟨namer, none⟩ onCode site access raws) :=
  gleaning (.attributesOf hheeding site access raws) (.attributesOf h hholding site access raws)

/-- Only a decoder that walks through bodies comes to string constants. -/
theorem gleaning_afterOpening (kind : LastMember) (header : MemberHeader)
    (raws : List RawAttribute) :
    Gleaning layout K (afterOpening ⟨namer, none⟩ kind header raws) := by
  cases kind with
  | field => exact gleaning_attributesOf h (.pure ()) (.pure ()) _ _ raws
  | method =>
    refine .look fun s hs => ?_
    dsimp only
    split
    · rename_i hwalking
      exact gleaning_attributesOf h .code (.code h (hs.1.walking hwalking)) _ _ raws
    · exact gleaning_attributesOf h (.pure ()) (.pure ()) _ _ raws

/-- A member of the class. -/
theorem gleaning_memberOf {kind : LastMember} {raw : RawMember} (hraw : raw ∈ layout.members kind) :
    Gleaning layout K (memberOf ⟨namer, none⟩ kind raw) := by
  rw [memberOf_eq]
  intro s value t hs hrun
  obtain ⟨header, u, hheader, hrest⟩ := EStateM.ok_of_bind hrun
  obtain ⟨rfl, -⟩ := memberHeaderOf_ok hheader
  have hopen : Gleaning layout K (openMember ⟨namer, none⟩ kind header) :=
    gleaning (.openMember (Heeding.walks_of_literal hraw hs.1 hheader))
      (.openMember h.toKept kind header)
  exact hopen.bind (fun _ => gleaning_afterOpening h kind header raw.attributes) _ _ _ hs hrest

/-- All that follows the name of the class. -/
theorem gleaning_classBodyOf {orphan : Bool} (horphan : orphan = true → layout.Walks) :
    Leads (fun s => s.Heeds layout ∧ s.Holds layout.constants K)
      (fun record t => (record.references = t.references ∧ record.imports = t.imports ∧
        record.api = t.api) ∧ K t.collected)
      (classBodyOf ⟨namer, none⟩ orphan layout.toRawBody) := by
  have hrecording := Holding.recording h.toKept
  refine Leads.record.bind fun found => ?_
  refine (gleaning (Heeding.heading.superclassAt found.access _)
    (hrecording.superclassAt found.access _)).bind fun _ => ?_
  refine (gleaning (Heeding.heading.interfacesOf found.access _)
    (hrecording.interfacesOf found.access _)).bind fun _ => ?_
  refine (Leads.forM fun raw hraw => @gleaning_memberOf _ _ _ h .field raw hraw).bind fun _ => ?_
  refine (gleaning (Heeding.prepareWalks horphan) (hrecording.prepareWalks orphan)).bind fun _ => ?_
  refine (Leads.forM fun raw hraw => @gleaning_memberOf _ _ _ h .method raw hraw).bind fun _ => ?_
  refine (gleaning (Heeding.heading.announce rfl) (Holding.tell h.toKept .membersEnd)).bind
    fun _ => ?_
  have hlast : Gleaning layout K (modify fun s : Decoder => { s with last := none }) :=
    .modify fun _ hs => ⟨⟨hs.1.pool, hs.1.major, hs.1.walking⟩, hs.2⟩
  refine hlast.bind fun _ => ?_
  refine (gleaning_attributesOf h (.pure ()) (.pure ()) .type found.access _).bind fun _ => ?_
  intro s record t hs hrun
  obtain ⟨rfl, _, -, rfl⟩ := ok_of_finish hrun
  exact ⟨⟨rfl, rfl, rfl⟩, hs.2.2⟩

end Kept

/-- **What is known of all that was collected for a record** without a listener: any property that
stays when something is referred to that the pool names, by a string constant only if bodies are
walked through. -/
theorem classOf_collects {namer : Namer} {layout : Layout} {s t : Decoder} {record : Record}
    (hrecord : s.record = none) (hwalking : s.walking = false)
    (hrun : classOf ⟨namer, none⟩ layout s = .ok record t) {K : Collected → Prop}
    (h : Collected.KeptExposed ⟨namer, none⟩ layout.constants layout.Walks K) (hs : K s.collected) :
    (record.references = t.references ∧ record.imports = t.imports ∧ record.api = t.api) ∧
      K t.collected := by
  obtain ⟨⟨header, orphan⟩, u, hheader, hbody⟩ := EStateM.ok_of_bind hrun
  obtain ⟨hheeds, horphan⟩ := heeds_of_classHeaderOf hrecord hwalking hheader
  exact gleaning_classBodyOf h horphan u record t
    ⟨hheeds, Holding.classHeaderOf h.toKept rfl hheader hs⟩ hbody

end Decode

/-- **No reference is made up**: whatever a class refers to comes from a name in its pool, that of a
class constant, one that a descriptor or signature among its texts has, or, if method bodies of the
class are walked through, one that a string constant spells with dots. -/
theorem Session.decode_origins {options : Options} {bytes : Bytes} {session after : Session}
    {record : Record} (h : session.decode options bytes = (.ok record, after)) :
    ∃ layout trailing, Layout.form.Fits layout ∧ bytes = Layout.form.encode layout ++ trailing ∧
      ∀ type ∈ record.references,
        ∃ named, layout.constants.Names layout.Walks named ∧ type = named.referent := by
  obtain ⟨layout, trailing, hfits, hbytes, s, hrun, rfl⟩ := decode_eq_ok_iff.1 h
  refine ⟨layout, trailing, hfits, hbytes, fun type htype => ?_⟩
  obtain ⟨⟨hreferences, -, -⟩, htraced⟩ := Decode.classOf_collects rfl (Bool.and_false _) hrun
    (Decoder.Collected.Traced.kept ⟨options.namer, none⟩ layout.constants layout.Walks)
    fun _ h => absurd h Std.ExtTreeSet.not_mem_empty
  rw [hreferences] at htype
  obtain ⟨-, named, hnames, hreferent⟩ := htraced type htype
  exact ⟨named, hnames, hreferent.symm⟩

/-- A class `A` of the last version without class literals, with a method that loads `p.B` by
name. -/
def loadingByName : Bytes :=
  [0xCA, 0xFE, 0xBA, 0xBE, 0, 0, 0, 48, 0, 16, 1, 0, 1, 65, 7, 0, 1, 1, 0, 1, 109, 1, 0, 3, 40, 41,
    86, 12, 0, 3, 0, 4, 10, 0, 2, 0, 5, 1, 0, 15, 106, 97, 118, 97, 47, 108, 97, 110, 103, 47, 67,
    108, 97, 115, 115, 7, 0, 7, 1, 0, 7, 102, 111, 114, 78, 97, 109, 101, 1, 0, 37, 40, 76, 106, 97,
    118, 97, 47, 108, 97, 110, 103, 47, 83, 116, 114, 105, 110, 103, 59, 41, 76, 106, 97, 118, 97,
    47, 108, 97, 110, 103, 47, 67, 108, 97, 115, 115, 59, 12, 0, 9, 0, 10, 10, 0, 8, 0, 11, 1, 0, 3,
    112, 46, 66, 8, 0, 13, 1, 0, 4, 67, 111, 100, 101, 0, 0x21, 0, 2, 0, 0, 0, 0, 0, 0, 0, 1, 0, 1,
    0, 3, 0, 4, 0, 1, 0, 15, 0, 0, 0, 18, 0, 1, 0, 1, 0, 0, 0, 6, 18, 14, 184, 0, 12, 177, 0, 0, 0,
    0, 0, 0]

/-- The class `p.B` is referred to, which only a string constant names: the body loads it, and it is
walked through. -/
theorem Session.decode_origins_of_loading :
    ∃ record after, Session.decode {} loadingByName {} = (.ok record, after) ∧
      record.references.toList =
        [⟨"A"⟩, ⟨"java/lang/Class"⟩, ⟨"java/lang/String"⟩, ⟨"p/B"⟩] ∧
      ∃ layout trailing, Layout.form.Fits layout ∧
        loadingByName = Layout.form.encode layout ++ trailing ∧
        ∀ type ∈ record.references,
          ∃ named, layout.constants.Names layout.Walks named ∧ type = named.referent := by
  have hreferences : (Session.decode {} loadingByName {}).1.toOption.map (·.references.toList) =
      some [⟨"A"⟩, ⟨"java/lang/Class"⟩, ⟨"java/lang/String"⟩, ⟨"p/B"⟩] := by
    decide +kernel
  obtain ⟨record, after, hrun, hall⟩ := Session.decode_of_map hreferences
  exact ⟨record, after, hrun, hall, @Session.decode_origins {} _ {} after record hrun⟩

end ClassFile
