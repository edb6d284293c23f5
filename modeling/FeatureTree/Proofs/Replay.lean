import FeatureTree.Document.Replay
import FeatureTree.Proofs.Routing
import Mathlib.Data.List.Forall2

/-!
# A document and its tree

The tree that a session makes of a document tells the document again, flattened: the scenarios of
all rules stand among those outside rules. **Nothing is lost on the way and nothing is told twice.**
The relations here say part by part what it is to be told again; the last section proves that the
tree of a replayed document does so.
-/

set_option autoImplicit false

namespace FeatureTree

/-! ## The order of scenarios -/

namespace Document

/-- The order by lines is transitive and total, as the library asks of an order that a list is
sorted by. -/
theorem byLine_trans (a b c : Document.Scenario) (hab : decide (a.line ≤ b.line))
    (hbc : decide (b.line ≤ c.line)) : decide (a.line ≤ c.line) := by
  simp only [decide_eq_true_eq] at *
  omega

theorem byLine_total (a b : Document.Scenario) :
    decide (a.line ≤ b.line) || decide (b.line ≤ a.line) := by
  simp only [Bool.or_eq_true, decide_eq_true_eq]
  omega

/-- Scenarios on one line keep the order in which they were found. -/
theorem filter_mergeSort_byLine (found : List Document.Scenario) (line : Nat) :
    (found.mergeSort fun a b => decide (a.line ≤ b.line)).filter (fun s => s.line = line) =
      found.filter fun s => s.line = line := by
  -- Within one line every order is the right one.
  have hsame : (found.filter fun s => s.line = line).Pairwise
      fun a b => decide (a.line ≤ b.line) := by
    refine List.pairwise_of_forall_mem_list ?_
    intro a ha b hb
    have hla := of_decide_eq_true (List.mem_filter.mp ha).2
    have hlb := of_decide_eq_true (List.mem_filter.mp hb).2
    exact decide_eq_true (by omega)
  -- All of one line are in order, so a stable sort keeps them; that it adds none is a matter of
  -- counting.
  have hsub := List.sublist_mergeSort byLine_trans byLine_total hsame List.filter_sublist
  have hkept := hsub.filter fun s => s.line = line
  simp only [List.filter_filter, Bool.and_self] at hkept
  exact (hkept.eq_of_length ((List.mergeSort_perm found _).filter _).length_eq.symm).symm

end Document

/-! ## What it is to tell a document again -/

/-- The head has the given texts and is at the given place. -/
structure Head.Tells (head : Head) (location : Location) (keyword name description : String) :
    Prop where
  location : head.location = location
  keyword : head.keyword = keyword
  name : head.name = name
  description : head.description = description

/-- The argument that a step of a document in a file has. -/
def Document.Step.argument? (file : String) (step : Document.Step) : Option Argument :=
  match step.docString, step.table with
  | some content, _ => some (.docString ⟨content, none, ⟨file, step.line + 1⟩⟩)
  | none, some ⟨first :: rest, line⟩ => some (.dataTable ⟨first :: rest, ⟨file, line⟩⟩)
  | none, some ⟨[], _⟩ => none
  | none, none => none

structure StepLine.Retells (file : String) (language : Language) (line : StepLine)
    (step : Document.Step) : Prop where
  language : line.language = language
  location : line.location = ⟨file, step.line⟩
  keyword : line.keyword = step.keyword
  name : line.name = step.value
  argument : line.argument = step.argument? file

structure ExamplesTable.Retells [PatternEngine] (file : String) (table : ExamplesTable)
    (block : Document.Examples) : Prop where
  head : table.toHead.Tells ⟨file, block.line⟩ block.keyword (block.name.getD "")
    (block.description.getD "")
  /-- A table has no tags of its own; they stay in its record. -/
  tags : table.record.tags = block.tags.map (⟨·, max 1 (block.line - 1)⟩)
  /-- The first row names the columns, and the others follow line by line. -/
  rows : ∀ names rest line, block.table = some ⟨names :: rest, line⟩ →
    table.header = ⟨names, ⟨file, line⟩⟩ ∧
    table.rows = (rest.zipIdx (line + 1)).map fun row =>
      ⟨names.zip row.1, ⟨file, row.2⟩, (Matcher.ofNames names).compile⟩
  no_rows : (∀ t, block.table = some t → t.rows = []) →
    table.header = ⟨[], ⟨file, block.line⟩⟩ ∧ table.rows = []

inductive Background.Retells (file : String) (language : Language) :
    Background → Option Document.Background → Prop
  | empty : Background.Retells file language (.empty language) none
  | declared {head : Head} {steps : List Step} {background : Document.Background}
      (opening : head.Tells ⟨file, background.line⟩ background.keyword background.name
        (background.description.getD ""))
      (retells : List.Forall₂ (fun step => StepLine.Retells file language step.toStepLine)
        steps background.steps) :
      Background.Retells file language (.declared head language steps) (some background)

/-- The tags of a document, all of them on the line above the keyword. -/
def Document.tagSet (file : String) (tags : List String) (line : Nat) : TagSet :=
  .ofTags ⟨file, line⟩ (tags.map (Tag.ofSpelling · ⟨file, max 1 (line - 1)⟩))

structure ScenarioHead.Retells (file : String) (feature : Feature) (head : ScenarioHead)
    (scenario : Document.Scenario) : Prop where
  opening : head.toHead.Tells ⟨file, scenario.line⟩ scenario.keyword scenario.name
    (scenario.description.getD "")
  language : head.language = feature.language
  background : head.background = feature.background
  tags : head.tags = Document.tagSet file scenario.tags scenario.line
  featureTags : head.featureTags = feature.tags

/-- A scenario with examples is told as an outline. -/
inductive Child.Retells [PatternEngine] (file : String) (feature : Feature) :
    Child → Document.Scenario → Prop
  | scenario {s : Scenario} {scenario : Document.Scenario} (examples : scenario.examples = [])
      (head : s.toScenarioHead.Retells file feature scenario)
      (steps : List.Forall₂ (fun step => StepLine.Retells file feature.language step.toStepLine)
        s.steps scenario.steps) :
      Child.Retells file feature (.scenario s) scenario
  | outline {o : Outline} {scenario : Document.Scenario} (examples : scenario.examples ≠ [])
      (head : o.toScenarioHead.Retells file feature scenario)
      (steps : List.Forall₂ (fun step => StepLine.Retells file feature.language step.toStepLine)
        o.steps scenario.steps)
      (tables : List.Forall₂ (ExamplesTable.Retells file) o.tables scenario.examples) :
      Child.Retells file feature (.outline o) scenario

structure Feature.Retells [PatternEngine] (file : String) (language : Language) (feature : Feature)
    (document : Document.Feature) : Prop where
  opening : feature.toHead.Tells ⟨file, document.line⟩ document.keyword
    (Text.trimStart document.name) (Text.trimEnd (document.description.getD ""))
  language : feature.language = language
  tags : feature.tags = Document.tagSet file document.tags document.line
  background : feature.background.Retells file feature.language document.background
  children : List.Forall₂ (Child.Retells file feature) feature.children document.scenariosByLine

/-! ## The sections of a document -/

namespace Document

/-- The events below an opening. -/
def body (steps : List Document.Step) (blocks : List Document.Examples) : List Event :=
  (steps.map fun step => Event.addStep step.record) ++
    blocks.map fun block => Event.addExamples block.record

/-- What stands below an opening has a record and opens nothing, so that a section goes on until the
next opening. -/
theorem opens_nothing_body {steps : List Document.Step} {blocks : List Document.Examples} :
    ∀ event ∈ body steps blocks, event.record?.isSome ∧ event.opensFeature = false ∧
      event.opensContainer = false := by
  intro event he
  rcases List.mem_append.mp he with he | he
  · obtain ⟨step, -, rfl⟩ := List.mem_map.mp he
    exact ⟨rfl, rfl, rfl⟩
  · obtain ⟨block, -, rfl⟩ := List.mem_map.mp he
    exact ⟨rfl, rfl, rfl⟩

/-- The steps of a section are read back from its body in order; the blocks do not show. -/
theorem filterMap_step?_body (file : String) (steps : List Document.Step)
    (blocks : List Document.Examples) :
    ((body steps blocks).map (Arrival.mk file)).filterMap Arrival.step? =
      steps.map fun step => ⟨file, step.record⟩ := by
  unfold body
  simp [List.filterMap_map, Function.comp_def, Arrival.step?, Event.step?]

theorem filterMap_block?_body (file : String) (steps : List Document.Step)
    (blocks : List Document.Examples) :
    ((body steps blocks).map (Arrival.mk file)).filterMap Arrival.block? =
      blocks.map fun block => ⟨file, block.record⟩ := by
  unfold body
  simp [List.filterMap_map, Function.comp_def, Arrival.block?, Event.block?]

theorem Background.events_eq (background : Document.Background) :
    background.events = .openBackground background.record :: body background.steps [] := by
  unfold events body
  rw [List.map_nil, List.append_nil]

/-- The event that a scenario opens with. -/
def Scenario.opening (scenario : Document.Scenario) : Event :=
  if scenario.examples.isEmpty then .openScenario scenario.record
  else .openOutline scenario.record

/-- Both ways to open a scenario count as openings, so where examples stand makes no difference to
the sections. -/
theorem Scenario.opening_opens (scenario : Document.Scenario) :
    scenario.opening.record?.isSome ∧ scenario.opening.opensFeature = false ∧
      scenario.opening.opensContainer = true := by
  unfold opening
  split <;> exact ⟨rfl, rfl, rfl⟩

theorem Scenario.events_eq (scenario : Document.Scenario) :
    scenario.events = scenario.opening :: body scenario.steps scenario.examples := by
  unfold events opening body
  cases scenario.examples with
  | nil =>
    rw [List.map_nil, List.append_nil]
    rfl
  | cons block blocks => rfl

/-- The events of a document that are about its background and its scenarios. -/
def Feature.sectionEvents (document : Document.Feature) : List Event :=
  document.background.toList.flatMap Background.events ++
    document.scenariosByLine.flatMap Scenario.events

/-- One feature is open all through the events of a document, and all of them carry records. -/
theorem Feature.opens_no_feature_sectionEvents (document : Document.Feature) :
    ∀ event ∈ document.sectionEvents, event.record?.isSome ∧ event.opensFeature = false := by
  intro event he
  rcases List.mem_append.mp he with he | he
  · obtain ⟨background, -, he⟩ := List.mem_flatMap.mp he
    rw [background.events_eq] at he
    rcases List.mem_cons.mp he with rfl | he
    · exact ⟨rfl, rfl⟩
    · obtain ⟨hrecord, hf, -⟩ := opens_nothing_body event he
      exact ⟨hrecord, hf⟩
  · obtain ⟨scenario, -, he⟩ := List.mem_flatMap.mp he
    rw [scenario.events_eq] at he
    rcases List.mem_cons.mp he with rfl | he
    · obtain ⟨hrecord, hf, -⟩ := scenario.opening_opens
      exact ⟨hrecord, hf⟩
    · obtain ⟨hrecord, hf, -⟩ := opens_nothing_body event he
      exact ⟨hrecord, hf⟩

/-- Cutting the events at openings gives the parts of the document back, the background first. -/
theorem Feature.sections_sectionEvents (document : Document.Feature) :
    sections Event.opensContainer document.sectionEvents =
      (document.background.toList.map fun background =>
        (.openBackground background.record, body background.steps [])) ++
      document.scenariosByLine.map fun scenario =>
        (scenario.opening, body scenario.steps scenario.examples) := by
  -- The background is a list of one section or none, and so the same lemma serves for it.
  have hbackground : sections Event.opensContainer
      ([] ++ document.background.toList.flatMap fun background =>
        .openBackground background.record :: body background.steps []) =
      [] ++ document.background.toList.map fun background =>
        (.openBackground background.record, body background.steps []) :=
    sections_append_flatMap (fun _ _ => rfl) fun _ _ event he => (opens_nothing_body event he).2.2
  unfold sectionEvents
  rw [funext Scenario.events_eq, funext Background.events_eq,
    sections_append_flatMap (fun scenario _ => scenario.opening_opens.2.2)
      (fun _ _ event he => (opens_nothing_body event he).2.2)]
  exact congrArg (· ++ _) hbackground

/-! ## What a session makes of them -/

def Background.draft (file : String) (background : Document.Background) : BackgroundDraft :=
  ⟨⟨file, background.record⟩, background.steps.map fun step => ⟨file, step.record⟩⟩

def Scenario.draft [PatternEngine] (file : String) (scenario : Document.Scenario) : ChildDraft :=
  let steps := scenario.steps.map fun step => ⟨file, step.record⟩
  if scenario.examples.isEmpty then .scenario ⟨file, scenario.record⟩ steps
  else
    .outline ⟨file, scenario.record⟩ steps
      (scenario.examples.map fun block => .ofPlaced ⟨file, block.record⟩)

def Feature.draft [PatternEngine] (file : String) (document : Document.Feature) : FeatureDraft where
  placed := ⟨file, document.record⟩
  background := document.background.map (Background.draft file)
  children := document.scenariosByLine.map (Scenario.draft file)

def Background.part (file : String) (background : Document.Background) :
    Arrival × List Arrival :=
  (⟨file, .openBackground background.record⟩,
    (body background.steps []).map (Arrival.mk file))

def Scenario.part (file : String) (scenario : Document.Scenario) : Arrival × List Arrival :=
  (⟨file, scenario.opening⟩, (body scenario.steps scenario.examples).map (Arrival.mk file))

/-- The same cut among arrivals, which know the file as well. -/
theorem Feature.sections_arrivals (file : String) (document : Document.Feature) :
    sections Arrival.opensContainer (document.sectionEvents.map (Arrival.mk file)) =
      document.background.toList.map (Background.part file) ++
        document.scenariosByLine.map (Scenario.part file) := by
  rw [sections_map]
  show (sections Event.opensContainer document.sectionEvents).map _ = _
  rw [sections_sectionEvents, List.map_append, List.map_map, List.map_map]
  rfl

theorem Background.ofSection?_part (file : String) (background : Document.Background) :
    BackgroundDraft.ofSection? (background.part file) = some (background.draft file) := by
  rw [part, BackgroundDraft.ofSection?, filterMap_step?_body]
  rfl

/-- A section of a scenario makes the draft of that scenario, an outline if it has examples. -/
theorem Scenario.ofSection?_part [PatternEngine] (file : String) (scenario : Document.Scenario) :
    ChildDraft.ofSection? (scenario.part file) = some (scenario.draft file) := by
  unfold part opening draft
  by_cases h : scenario.examples.isEmpty = true
  · rw [if_pos h, if_pos h, ChildDraft.ofSection?, filterMap_step?_body]
  · rw [if_neg h, if_neg h, ChildDraft.ofSection?, filterMap_step?_body, filterMap_block?_body,
      List.map_map]
    rfl

theorem filterMap_parts [PatternEngine] (file : String) (scenarios : List Document.Scenario) :
    (scenarios.map (Scenario.part file)).filterMap ChildDraft.ofSection? =
      scenarios.map (Scenario.draft file) := by
  induction scenarios with
  | nil => rfl
  | cons scenario scenarios ih =>
    rw [List.map_cons, List.filterMap_cons_some (scenario.ofSection?_part file), ih,
      List.map_cons]

theorem findSome?_parts (file : String) (scenarios : List Document.Scenario) :
    (scenarios.map (Scenario.part file)).findSome? BackgroundDraft.ofSection? = none := by
  refine List.findSome?_eq_none_iff.mpr ?_
  intro part hpart
  obtain ⟨scenario, -, rfl⟩ := List.mem_map.mp hpart
  unfold Scenario.part Scenario.opening
  split <;> rfl

/-- The drafts of a document are those that its arrivals make, by the cut into sections. -/
theorem Feature.ofArrivals_sectionEvents [PatternEngine] (file : String)
    (document : Document.Feature) :
    FeatureDraft.ofArrivals ⟨file, document.record⟩
      (document.sectionEvents.map (Arrival.mk file)) = document.draft file := by
  unfold FeatureDraft.ofArrivals draft
  -- Backgrounds are looked for in both halves and children made from both; each half answers for
  -- its own kind.
  rw [sections_arrivals, List.findSome?_append, List.filterMap_append, findSome?_parts,
    filterMap_parts, Option.or_none]
  cases document.background with
  | none => rfl
  | some background =>
    rw [Option.toList_some, List.map_singleton, List.findSome?_singleton,
      background.ofSection?_part]
    rfl

/-- The last event of a document is for the listener's information alone. -/
theorem Feature.session_replay [PatternEngine] {σ : Type} [DiagnosticSink σ]
    (document : Document.Feature) (path code : String) (session : Session σ) :
    (document.replay path code session).session =
      (session.run [.event (.setPath path), .event (.setLanguage code),
        .event (.openFeature document.record)]).run (document.sectionEvents.map Call.event) := by
  show (session.run ((document.openingEvents path code).map Call.event)).run
    (document.scenarioEvents.map Call.event) = _
  unfold openingEvents scenarioEvents sectionEvents
  rw [List.map_append, Session.run_append, List.map_append, Session.run_append, List.map_append,
    Session.run_append]
  rfl

/-- Behind a replay the session has the language of the document and its draft. From here on the
proof is about drafts and documents and no longer about sessions. -/
theorem Feature.draft_replay [PatternEngine] {σ : Type} [DiagnosticSink σ]
    (document : Document.Feature) (path code : String) (settings : Settings) (sink : σ) :
    let session := (document.replay path code (Session.start settings sink)).session
    session.language = some ⟨code⟩ ∧
      session.draft = some (document.draft (settings.style.apply path)) := by
  intro session
  let opened := (Session.start settings sink).run [.event (.setPath path),
    .event (.setLanguage code), .event (.openFeature document.record)]
  have hsession : session = opened.run (document.sectionEvents.map Call.event) :=
    document.session_replay path code (Session.start settings sink)
  -- No section event sets a path or a language, so all of them arrive under the document's.
  have hrecords : ∀ event ∈ document.sectionEvents, event.record?.isSome :=
    fun event he => (document.opens_no_feature_sectionEvents event he).1
  have hdraft : session.draft = some (.ofArrivals ⟨opened.path, document.record⟩
      (arrivals settings.style opened.path document.sectionEvents)) := by
    rw [hsession]
    exact opened.draft_run rfl rfl document.sectionEvents
      fun event he => (document.opens_no_feature_sectionEvents event he).2
  refine ⟨?_, ?_⟩
  · rw [hsession]
    exact (opened.run_surroundings hrecords).language
  · rw [hdraft, arrivals_of_records _ _ hrecords]
    exact congrArg some (document.ofArrivals_sectionEvents _)

/-! ## The tree tells the document again -/

theorem cells_rawRows (table : Table) : (rawRows (some table)).map RawRow.cells = table.rows := by
  show ((table.rows.zipIdx table.line).map _).map RawRow.cells = table.rows
  rw [List.map_map]
  exact List.zipIdx_map_fst table.line table.rows

theorem rawRows_cons (first : List String) (rest : List (List String)) (line : Nat) :
    rawRows (some ⟨first :: rest, line⟩) =
      ⟨first, line⟩ :: (rest.zipIdx (line + 1)).map fun p => ⟨p.1, p.2⟩ :=
  rfl

/-- The argument comes out as the document has it: a doc string before a table, and none for an
empty table. -/
theorem Step.ofRecord?_record (file : String) (step : Document.Step) :
    Argument.ofRecord? step.record ⟨file, step.line⟩ = step.argument? file := by
  unfold Argument.ofRecord? record argument?
  cases step.docString with
  | some content => rfl
  | none =>
    rcases step.table with _ | ⟨_ | ⟨first, rest⟩, line⟩
    · rfl
    · rfl
    -- Only a table with rows is an argument, and it has the cells that were written.
    · have hcells := cells_rawRows ⟨first :: rest, line⟩
      exact congrArg (fun rows => some (Argument.dataTable ⟨rows, ⟨file, line⟩⟩)) hcells

theorem Step.retells (file : String) (language : Language) (step : Document.Step) :
    (StepLine.ofPlaced ⟨file, step.record⟩ language).Retells file language step where
  language := rfl
  location := rfl
  keyword := rfl
  name := rfl
  argument := step.ofRecord?_record file

/-- The first row of a block becomes the header and the rest its data, each on its own line. -/
theorem Examples.retells [PatternEngine] (file : String) (block : Document.Examples) :
    (ExamplesTable.ofPlaced ⟨file, block.record⟩).Retells file block where
  head := ⟨rfl, rfl, rfl, rfl⟩
  tags := rfl
  rows := by
    intro names rest line htable
    have hrows : block.record.rows =
        ⟨names, line⟩ :: (rest.zipIdx (line + 1)).map fun p => ⟨p.1, p.2⟩ := by
      rw [← rawRows_cons, ← htable]
      rfl
    -- The rows need the header first, for each row is paired with its names.
    have hheader : Header.ofPlaced ⟨file, block.record⟩ = ⟨names, ⟨file, line⟩⟩ := by
      unfold Header.ofPlaced
      rw [hrows]
      rfl
    refine ⟨hheader, ?_⟩
    show block.record.rows.tail.map _ = _
    rw [hheader, hrows, List.tail_cons, List.map_map]
    rfl
  no_rows := by
    intro hnone
    have hrows : block.record.rows = [] := by
      show rawRows block.table = []
      cases htable : block.table with
      | none => rfl
      | some table =>
        show (table.rows.zipIdx table.line).map _ = []
        rw [hnone table htable]
        rfl
    refine ⟨?_, ?_⟩
    · show Header.ofPlaced _ = _
      unfold Header.ofPlaced
      rw [hrows]
      rfl
    · show block.record.rows.tail.map _ = _
      rw [hrows]
      rfl

theorem tags_eq_tagSet (file : String) (record : Record) (tags : List String)
    (h : record.tags = rawTags tags record.line) :
    (Placed.mk file record).tags = tagSet file tags record.line := by
  unfold Placed.tags TagSet.ofRaw tagSet
  show TagSet.ofTags _ (record.tags.map _) = _
  rw [h, rawTags, List.map_map]
  rfl

theorem Background.retells (file : String) (language : Language)
    (background : Document.Background) :
    FeatureTree.Background.Retells file language ((background.draft file).finish language)
      (some background) := by
  refine .declared ⟨rfl, rfl, rfl, rfl⟩ ?_
  show List.Forall₂ _ ((background.steps.map _).map _) _
  rw [List.map_map, List.forall₂_map_left_iff, List.forall₂_same]
  intro step _
  exact step.retells file language

theorem Feature.background_retells [PatternEngine] (file : String) (language : Language)
    (document : Document.Feature) :
    ((document.draft file).resolve language).Retells file language document.background := by
  unfold draft FeatureDraft.resolve
  cases document.background with
  | none => exact .empty
  | some background => exact background.retells file language

/-- The head is made in the same way for scenarios and outlines, so it is retold once for both. -/
theorem Scenario.head_retells (file : String) (feature : FeatureTree.Feature)
    (scenario : Document.Scenario) {draft : ChildDraft}
    (h : draft.placed = ⟨file, scenario.record⟩) :
    (draft.head feature.background feature.language feature.tags).Retells file feature
      scenario where
  opening := by
    unfold ChildDraft.head
    rw [h]
    exact ⟨rfl, rfl, rfl, rfl⟩
  language := rfl
  background := rfl
  tags := by
    show draft.placed.tags = _
    rw [h]
    exact tags_eq_tagSet file scenario.record scenario.tags rfl
  featureTags := rfl

/-- A scenario is retold by a scenario or by an outline, as its examples decide. -/
theorem Scenario.retells [PatternEngine] (file : String) (feature : FeatureTree.Feature)
    (scenario : Document.Scenario) :
    ((scenario.draft file).finish feature.background feature.language feature.tags).Retells
      file feature scenario := by
  unfold draft
  by_cases h : scenario.examples.isEmpty = true
  · rw [if_pos h]
    refine .scenario (List.isEmpty_iff.mp h) (scenario.head_retells file feature rfl) ?_
    show List.Forall₂ _ ((scenario.steps.map _).map _) _
    rw [List.map_map, List.forall₂_map_left_iff, List.forall₂_same]
    intro step _
    exact step.retells file feature.language
  · rw [if_neg h]
    refine .outline (mt List.isEmpty_iff.mpr h) (scenario.head_retells file feature rfl) ?_ ?_
    · show List.Forall₂ _ ((scenario.steps.map _).map _) _
      rw [List.map_map, List.forall₂_map_left_iff, List.forall₂_same]
      intro step _
      exact step.retells file feature.language
    · show List.Forall₂ _ (scenario.examples.map _) _
      rw [List.forall₂_map_left_iff, List.forall₂_same]
      intro block _
      exact block.retells file

/-- Part by part from the lemmas above; the children are compared in the order that the document
sorts them into. -/
theorem Feature.finish_retells [PatternEngine] (file : String) (language : Language)
    (document : Document.Feature) :
    ((document.draft file).finish language).Retells file language document where
  opening := ⟨rfl, rfl, rfl, rfl⟩
  language := rfl
  tags := tags_eq_tagSet file document.record document.tags rfl
  background := document.background_retells file language
  children := by
    show List.Forall₂ _ ((document.scenariosByLine.map _).map _) _
    rw [List.map_map, List.forall₂_map_left_iff, List.forall₂_same]
    intro scenario _
    exact scenario.retells file ((document.draft file).finish language)

/-- **Replaying loses nothing and repeats nothing.** The tree of a document retells it, its
scenarios in stable order of their lines. -/
theorem Feature.result_replay [PatternEngine] {σ : Type} [DiagnosticSink σ]
    (document : Document.Feature) (path code : String) (settings : Settings) (sink : σ) :
    (∃ feature,
      (document.replay path code (Session.start settings sink)).session.result =
        .ok (some feature) ∧
      feature.Retells (settings.style.apply path) ⟨code⟩ document) ∧
    let found := document.scenarios ++ document.rules.flatMap Rule.scenarios
    document.scenariosByLine.Perm found ∧
    document.scenariosByLine.Pairwise (fun a b => a.line ≤ b.line) ∧
    ∀ line, document.scenariosByLine.filter (fun s => s.line = line) =
      found.filter fun s => s.line = line := by
  refine ⟨?_, ?_, ?_, ?_⟩
  · obtain ⟨hlanguage, hdraft⟩ := document.draft_replay path code settings sink
    exact ⟨_, Session.result_of_draft hlanguage hdraft, document.finish_retells _ _⟩
  · exact List.mergeSort_perm _ _
  · have hsorted := List.pairwise_mergeSort byLine_trans byLine_total
      (document.scenarios ++ document.rules.flatMap Rule.scenarios)
    exact hsorted.imp of_decide_eq_true
  · exact filter_mergeSort_byLine _

end Document
end FeatureTree
