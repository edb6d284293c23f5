import FeatureTree.Proofs.Routing
import Mathlib.Algebra.GroupWithZero.Nat
import Mathlib.Data.List.Forall2

/-!
# What an outline expands to

An outline of a tree has come a long way: its steps and its examples arrived one by one, in any
order, and were built into templates and tables. **The expansions can be read off the records all the
same:** there is one for each data row of each examples block, and in it one step for each step
record, with the row's values in its texts and in the texts below it.
-/

set_option autoImplicit false

namespace FeatureTree

/-! ## Arguments -/

/-- The record with `f` applied to the texts below its line. -/
def Record.mapTexts (f : String → String) (record : Record) : Record :=
  { record with
    docString := record.docString.map fun text => { text with content := f text.content }
    rows := record.rows.map fun row => { row with cells := row.cells.map f } }

/-- The argument below a template's line with `f` applied to its texts: its doc string if it has one,
or else its rows as a table, or else nothing. -/
def Placed.expandedArgument? (f : String → String) (template : Placed) : Option Argument :=
  match template.record.docString, template.record.rows with
  | some text, _ =>
    some (.docString ⟨f text.content, text.contentType, ⟨template.file, text.line⟩⟩)
  | none, first :: rest =>
    some (.dataTable
      ⟨(first :: rest).map fun row => row.cells.map f, ⟨template.file, first.line⟩⟩)
  | none, [] => none

/-- The built argument, with its texts changed, is the one that can be read off the record. -/
theorem mapTexts_ofRecord?_eq_expanded (f : String → String) (template : Placed) :
    (Argument.ofRecord? template.record template.location).map (·.mapTexts f) =
      template.expandedArgument? f := by
  unfold Argument.ofRecord? Placed.expandedArgument?
  cases template.record.docString with
  | some text => rfl
  | none =>
    cases template.record.rows with
    | nil => rfl
    | cons first rest =>
      show some (Argument.dataTable ⟨List.map _ (List.map _ (first :: rest)), _⟩) = _
      rw [List.map_map]
      rfl

/-- It makes no difference whether the texts change before the argument is built or after. -/
theorem mapTexts_ofRecord? (f : String → String) (record : Record) (location : Location) :
    (Argument.ofRecord? record location).map (·.mapTexts f) =
      Argument.ofRecord? (record.mapTexts f) location := by
  unfold Argument.ofRecord? Record.mapTexts
  cases record.docString with
  | some text => rfl
  | none =>
    cases record.rows with
    | nil => rfl
    | cons first rest => simp [Argument.mapTexts]

/-! ## Expansions and their records -/

/-- The step is what a row makes of a step record. -/
structure Step.IsInstance (language : Language) (row : Row) (step : Step) (template : Placed) :
    Prop where
  record : step.record = template.record
  language : step.language = language
  location : step.location = row.location
  keyword : step.keyword = template.record.keyword
  name : step.name = row.expand template.record.name
  /-- A doc string comes before rows, each text is expanded, and all else stays. -/
  argument : step.argument = template.expandedArgument? row.expand
  /-- It is the argument that the record has if its texts are expanded first. -/
  rebuilt :
    step.argument = Argument.ofRecord? (template.record.mapTexts row.expand) template.location

theorem instantiate_isInstance (row : Row) (language : Language) (template : Placed) :
    Step.IsInstance language row
      (OutlineStep.instantiate ⟨.ofPlaced template language⟩ row) template where
  record := rfl
  language := rfl
  location := rfl
  keyword := rfl
  name := rfl
  argument := mapTexts_ofRecord?_eq_expanded row.expand template
  rebuilt := mapTexts_ofRecord? row.expand template.record template.location

def Placed.columns (block : Placed) : List String :=
  (block.record.rows.head?.map RawRow.cells).getD []

/-- The data rows of examples blocks, block by block. -/
def dataRows (blocks : List Placed) : List (Placed × RawRow) :=
  blocks.flatMap fun block => block.record.rows.tail.map fun row => (block, row)

/-- One row of each block is its header, if it has rows at all. -/
theorem length_dataRows (blocks : List Placed) :
    (dataRows blocks).length = (blocks.map fun block => block.record.rows.length - 1).sum := by
  simp only [dataRows, List.length_flatMap, List.length_map, List.length_tail]

section Expansions

variable [PatternEngine]

/-- The expansion is that of a data row of an examples block, with a step for each template. -/
structure Expansion.IsOf (language : Language) (templates : List Placed) (expansion : Expansion)
    (source : Placed × RawRow) : Prop where
  table : expansion.table = .ofPlaced source.1
  data : expansion.row.data = source.1.columns.zip source.2.cells
  matcher : expansion.row.matcher = (Matcher.ofNames source.1.columns).compile
  location : expansion.row.location = ⟨source.1.file, source.2.line⟩
  steps : List.Forall₂ (Step.IsInstance language expansion.row) expansion.steps templates

/-- The outline was opened by a record, and a body of events went to it. -/
structure Outline.IsOf (outline : Outline) (source : Placed × List Arrival) : Prop where
  record : outline.record = source.1.record
  count :
    outline.expansions.length =
      ((source.2.filterMap Arrival.block?).map fun block => block.record.rows.length - 1).sum
  expansions :
    List.Forall₂ (Expansion.IsOf outline.language (source.2.filterMap Arrival.step?))
      outline.expansions (dataRows (source.2.filterMap Arrival.block?))

/-- A block without rows has a header of no columns, as its rows would have. -/
theorem header_ofPlaced (block : Placed) (cells : List String) (location : Location) :
    (Header.ofPlaced block).row cells location =
      ⟨block.columns.zip cells, location, (Matcher.ofNames block.columns).compile⟩ := by
  unfold Header.ofPlaced Placed.columns
  cases block.record.rows <;> rfl

/-- Two nested loops, over tables and over their rows, are one over the data rows. -/
theorem expansions_eq_map {outline : Outline} {templates blocks : List Placed}
    (hsteps : outline.steps = templates.map fun step => ⟨.ofPlaced step outline.language⟩)
    (htables : outline.tables = blocks.map .ofPlaced) :
    outline.expansions = (dataRows blocks).map fun source =>
      let row := (Header.ofPlaced source.1).row source.2.cells
        (source.1.location.onLine source.2.line)
      ⟨.ofPlaced source.1, row, templates.map fun step =>
        OutlineStep.instantiate ⟨.ofPlaced step outline.language⟩ row⟩ := by
  unfold Outline.expansions dataRows
  rw [hsteps, htables, List.flatMap_map, List.map_flatMap]
  refine List.flatMap_congr ?_
  intro block _
  show ((block.record.rows.tail.map _).map _) = _
  rw [List.map_map, List.map_map]
  refine List.map_congr_left ?_
  intro row _
  show Expansion.mk _ _ _ = Expansion.mk _ _ _
  rw [List.map_map]
  rfl

/-- Each expansion is of its own data row, in the same order. -/
theorem expansions_isOf {outline : Outline} {templates blocks : List Placed}
    (hsteps : outline.steps = templates.map fun step => ⟨.ofPlaced step outline.language⟩)
    (htables : outline.tables = blocks.map .ofPlaced) :
    List.Forall₂ (Expansion.IsOf outline.language templates) outline.expansions
      (dataRows blocks) := by
  rw [expansions_eq_map hsteps htables, List.forall₂_map_left_iff, List.forall₂_same]
  rintro ⟨block, row⟩ -
  have hrow := header_ofPlaced block row.cells (block.location.onLine row.line)
  refine ⟨rfl, congrArg Row.data hrow, congrArg Row.matcher hrow, congrArg Row.location hrow, ?_⟩
  rw [List.forall₂_map_left_iff, List.forall₂_same]
  intro template _
  exact instantiate_isInstance _ outline.language template

theorem Outline.isOf_of_built {outline : Outline} {source : Placed × List Arrival}
    (hrecord : outline.record = source.1.record)
    (hsteps : outline.steps =
      (source.2.filterMap Arrival.step?).map fun step => ⟨.ofPlaced step outline.language⟩)
    (htables : outline.tables = (source.2.filterMap Arrival.block?).map .ofPlaced) :
    outline.IsOf source := by
  have hexpansions := expansions_isOf hsteps htables
  refine ⟨hrecord, ?_, hexpansions⟩
  rw [hexpansions.length_eq, length_dataRows]

/-! ## The outlines of an answer -/

/-- The section with its opening record, if an outline opens it. -/
def outlineSection? : Arrival × List Arrival → Option (Placed × List Arrival)
  | (⟨file, .openOutline record⟩, body) => some (⟨file, record⟩, body)
  | _ => none

/-- Sections that open no outline make none, so outlines and their sections stay in step. -/
theorem outlines_isOf (parts : List (Arrival × List Arrival)) (background : Background)
    (language : Language) (featureTags : TagSet) :
    List.Forall₂ Outline.IsOf
      (((parts.filterMap ChildDraft.ofSection?).map
        (·.finish background language featureTags)).filterMap Child.outline?)
      (parts.filterMap outlineSection?) := by
  induction parts with
  | nil => exact .nil
  | cons part parts ih =>
    obtain ⟨⟨file, event⟩, body⟩ := part
    cases event with
    | openOutline record => exact .cons (Outline.isOf_of_built rfl rfl rfl) ih
    | _ => exact ih

/-! ## Steps and examples in any order -/

/-- Steps and blocks are taken from a body separately, so that only their own orders matter. -/
theorem FeatureDraft.extend_congr {body body' : List Arrival}
    (hstep : body.filterMap Arrival.step? = body'.filterMap Arrival.step?)
    (hblock : body.filterMap Arrival.block? = body'.filterMap Arrival.block?)
    (cursor : Option Cursor) (draft : FeatureDraft) :
    draft.extend cursor body = draft.extend cursor body' := by
  have hbackground : ∀ background : BackgroundDraft, background.extend body =
      background.extend body' := by
    intro background
    rw [BackgroundDraft.extend, BackgroundDraft.extend, hstep]
  have hchild : ∀ child : ChildDraft, child.extend body = child.extend body' := by
    intro child
    cases child with
    | scenario => rw [ChildDraft.extend, ChildDraft.extend, hstep]
    | outline => rw [ChildDraft.extend, ChildDraft.extend, hstep, hblock]
  rcases cursor with _ | _ | index
  · rfl
  · simp only [extend, hbackground]
  · simp only [extend, hchild]

end Expansions

namespace Session

variable {σ : Type}

theorem SameSurroundings.eq {a b session : Session σ} (ha : SameSurroundings a session)
    (hb : SameSurroundings b session) (hdraft : a.draft = b.draft)
    (hcursor : a.cursor = b.cursor) : a = b := by
  obtain ⟨_, _, _, _, _, _⟩ := a
  obtain ⟨_, _, _, _, _, _⟩ := b
  obtain ⟨rfl, rfl, rfl, rfl⟩ := ha
  obtain ⟨rfl, rfl, rfl, rfl⟩ := hb
  obtain rfl := hdraft
  obtain rfl := hcursor
  rfl

variable [PatternEngine] [DiagnosticSink σ]

/-- Steps and examples of an outline are kept apart, and for anything else examples do not count. -/
theorem run_addStep_addExamples (session : Session σ) (step block : Record) :
    session.run [.event (.addStep step), .event (.addExamples block)] =
      session.run [.event (.addExamples block), .event (.addStep step)] := by
  -- Field by field: the surroundings are untouched, the cursor does not move, and the drafts take
  -- the same steps and the same blocks.
  have hsame : ∀ e e' : Event, e.record?.isSome → e'.record?.isSome →
      SameSurroundings (session.run [.event e, .event e']) session := by
    intro e e' he he'
    have hrecords : ∀ event ∈ [e, e'], event.record?.isSome := by simp [he, he']
    exact session.run_surroundings hrecords
  have hdraft : ∀ e e' : Event, e.opensFeature = false → e.opensContainer = false →
      e'.opensFeature = false → e'.opensContainer = false →
      (session.run [.event e, .event e']).draft = session.draft.map
        (·.extend session.cursor (arrivals session.settings.style session.path [e, e'])) := by
    intro e e' hf hc hf' hc'
    have hfs : ∀ event ∈ [e, e'], event.opensFeature = false := by simp [hf, hf']
    have hcs : ∀ event ∈ [e, e'], event.opensContainer = false := by simp [hc, hc']
    exact draft_run_of_not_opens hfs hcs
  have hcursor : ∀ e e' : Event, e.opensFeature = false → e.opensContainer = false →
      e'.opensFeature = false → e'.opensContainer = false →
      (session.run [.event e, .event e']).cursor = session.cursor := by
    intro e e' hf hc hf' hc'
    exact (handle_of_not_opens _ hf' hc').1.trans (handle_of_not_opens _ hf hc).1
  refine (hsame _ _ rfl rfl).eq (hsame _ _ rfl rfl) ?_ ?_
  · rw [hdraft _ _ rfl rfl rfl rfl, hdraft _ _ rfl rfl rfl rfl]
    refine congrArg (session.draft.map ·) (funext ?_)
    intro draft
    exact FeatureDraft.extend_congr rfl rfl session.cursor draft
  · rw [hcursor _ _ rfl rfl rfl rfl, hcursor _ _ rfl rfl rfl rfl]

/-- **From events to the steps that are run.** The outlines of an answer are those of the sections
that outlines opened, and their expansions those of the records there. -/
theorem outlines_run_start (settings : Settings) (sink : σ) :
    (∀ calls feature, ((start settings sink).run calls).result = .ok (some feature) →
      ∃ before record after, calls = before ++ .event (.openFeature record) :: after ∧
        OpensNoFeature after ∧
        List.Forall₂ Outline.IsOf feature.outlines
          ((sections Arrival.opensContainer (arrivals settings.style (settings.fileAfter before)
            (events after))).filterMap outlineSection?)) ∧
    ∀ front step block rest,
      (start settings sink).run
        (front ++ .event (.addStep step) :: .event (.addExamples block) :: rest) =
      (start settings sink).run
        (front ++ .event (.addExamples block) :: .event (.addStep step) :: rest) := by
  refine ⟨?_, ?_⟩
  · intro calls feature hresult
    rcases exists_last_feature calls with hnone | ⟨before, record, after, rfl, hafter⟩
    · obtain ⟨-, draft, -, hd, -⟩ := exists_draft_of_result hresult
      rw [(draft_run_start_eq_none_iff settings sink calls).mpr hnone] at hd
      exact nomatch hd
    · obtain ⟨language, -, hl, -, -⟩ := exists_draft_of_result hresult
      rw [language_run_start] at hl
      obtain ⟨settled, hfeature⟩ :=
        result_run_openFeature settings sink before record hafter hl
      rw [hfeature] at hresult
      obtain rfl := Option.some.inj (Except.ok.inj hresult)
      exact ⟨before, record, after, rfl, hafter, outlines_isOf _ _ language _⟩
  · intro front step block rest
    rw [run_append, run_append]
    exact congrArg (run · rest) (run_addStep_addExamples _ step block)

end Session
end FeatureTree
