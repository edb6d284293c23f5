import FeatureTree.Proofs.Provenance

/-!
# All locations of a tree

Node by node, `Feature.LocatedBy` says where a tree was written. Here the locations of a whole tree
are put in one list, those of the steps that its outlines expand to among them. **Every file in the
list is one that was in effect when something arrived,** so what is true of all such files, as that
they have no `/` in them where paths are written with backslashes, is true throughout the tree.
-/

set_option autoImplicit false

namespace FeatureTree

/-! ## The locations of a node and all below it -/

def TagSet.locations (set : TagSet) : List Location :=
  set.location :: set.tags.map Tag.location

def StepLine.locations (line : StepLine) : List Location :=
  line.location :: (line.argument.map Argument.location).toList

def Background.locations (background : Background) : List Location :=
  background.location?.toList ++ background.steps.flatMap fun step => step.toStepLine.locations

def ExamplesTable.locations (table : ExamplesTable) : List Location :=
  table.location :: table.header.location :: table.rows.map Row.location

def Expansion.locations (expansion : Expansion) : List Location :=
  expansion.row.location :: (expansion.table.locations ++
    expansion.steps.flatMap fun step => step.toStepLine.locations)

def ScenarioHead.locations (head : ScenarioHead) : List Location :=
  head.location ::
    (head.background.locations ++ head.tags.locations ++ head.featureTags.locations)

/-- The locations of what an outline was written with. -/
def Outline.templateLocations (outline : Outline) : List Location :=
  (outline.steps.flatMap fun step => step.toStepLine.locations) ++
    outline.tables.flatMap ExamplesTable.locations

def Child.locations : Child → List Location
  | scenario s => s.toScenarioHead.locations ++
      s.steps.flatMap fun step => step.toStepLine.locations
  | outline o => o.toScenarioHead.locations ++ o.templateLocations ++
      o.expansions.flatMap Expansion.locations

def Feature.locations (feature : Feature) : List Location :=
  feature.location :: (feature.tags.locations ++ feature.background.locations ++
    feature.children.flatMap Child.locations)

/-! ## Expanded steps -/

theorem Argument.location_mapTexts (f : String → String) (argument : Argument) :
    (argument.mapTexts f).location = argument.location := by
  cases argument <;> rfl

/-- A step is where the row is, and its argument where the template has it. -/
theorem OutlineStep.locations_instantiate (template : OutlineStep) (row : Row) :
    (template.instantiate row).toStepLine.locations =
      row.location :: (template.argument.map Argument.location).toList := by
  show row.location :: ((template.argument.map _).map Argument.location).toList = _
  rw [Option.map_map]
  congr 3
  funext argument
  exact argument.location_mapTexts row.expand

/-- An expansion is nowhere the outline is not. -/
theorem Outline.mem_templateLocations {outline : Outline} {location : Location}
    (h : location ∈ outline.expansions.flatMap Expansion.locations) :
    location ∈ outline.templateLocations := by
  -- An expansion knows its row and its table, and both are the outline's. Its steps have their
  -- arguments from the templates.
  obtain ⟨expansion, hexpansion, hlocation⟩ := List.mem_flatMap.mp h
  obtain ⟨table, htable, hofRow⟩ := List.mem_flatMap.mp hexpansion
  obtain ⟨row, hrow, rfl⟩ := List.mem_map.mp hofRow
  have htables : ∀ l ∈ table.locations, l ∈ outline.templateLocations := by
    intro l hl
    exact List.mem_append_right _ (List.mem_flatMap.mpr ⟨table, htable, hl⟩)
  have hrowLocation : row.location ∈ outline.templateLocations :=
    htables _ (List.mem_cons_of_mem _ (List.mem_cons_of_mem _ (List.mem_map_of_mem hrow)))
  rcases List.mem_cons.mp hlocation with rfl | hlocation
  · exact hrowLocation
  · rcases List.mem_append.mp hlocation with hlocation | hlocation
    · exact htables location hlocation
    · obtain ⟨step, hstep, hlocation⟩ := List.mem_flatMap.mp hlocation
      obtain ⟨template, htemplate, rfl⟩ := List.mem_map.mp hstep
      rw [template.locations_instantiate] at hlocation
      rcases List.mem_cons.mp hlocation with rfl | hlocation
      · exact hrowLocation
      · exact List.mem_append_left _ (List.mem_flatMap.mpr
          ⟨template, htemplate, List.mem_cons_of_mem _ hlocation⟩)

/-! ## Files of a tree -/

/-- All of the locations are in files of a kind. -/
def FilesOf (kind : String → Prop) (locations : List Location) : Prop :=
  ∀ location ∈ locations, kind location.file

section Files

variable {kind : String → Prop}

theorem filesOf_cons {location : Location} {locations : List Location} :
    FilesOf kind (location :: locations) ↔ kind location.file ∧ FilesOf kind locations :=
  List.forall_mem_cons

theorem filesOf_append {first second : List Location} :
    FilesOf kind (first ++ second) ↔ FilesOf kind first ∧ FilesOf kind second :=
  List.forall_mem_append

theorem filesOf_flatMap {α : Type} {locations : α → List Location} {l : List α} :
    FilesOf kind (l.flatMap locations) ↔ ∀ a ∈ l, FilesOf kind (locations a) := by
  constructor
  · intro h a ha location hlocation
    exact h location (List.mem_flatMap.mpr ⟨a, ha, hlocation⟩)
  · intro h location hlocation
    obtain ⟨a, ha, hmem⟩ := List.mem_flatMap.mp hlocation
    exact h a ha location hmem

/-- All tags of a set are in the file of the record that has them. -/
theorem TagSet.LocatedBy.filesOf {placed : Placed} {set : TagSet} (h : set.LocatedBy placed)
    (hfile : kind placed.file) : FilesOf kind set.locations := by
  refine filesOf_cons.mpr ⟨by rw [h.location]; exact hfile, ?_⟩
  intro location hlocation
  obtain ⟨tag, htag, rfl⟩ := List.mem_map.mp hlocation
  obtain ⟨raw, -, hraw⟩ := h.tags tag htag
  rw [hraw]
  exact hfile

theorem StepLine.LocatedBy.filesOf {placed : Placed} {line : StepLine} (h : line.LocatedBy placed)
    (hfile : kind placed.file) : FilesOf kind line.locations := by
  obtain ⟨-, hlocation, hargument⟩ := h
  refine filesOf_cons.mpr ⟨by rw [hlocation]; exact hfile, ?_⟩
  intro location hmem
  -- By the kinds of argument, for each has its place in the record.
  generalize line.argument = argument at hargument hmem
  cases hargument with
  | none => exact nomatch hmem
  | docString written hlocated =>
    obtain rfl := List.mem_singleton.mp hmem
    rw [Argument.location, hlocated]
    exact hfile
  | dataTable written hlocated =>
    obtain rfl := List.mem_singleton.mp hmem
    rw [Argument.location, hlocated]
    exact hfile

theorem ExamplesTable.LocatedBy.filesOf {block : Placed} {table : ExamplesTable}
    (h : table.LocatedBy block) (hfile : kind block.file) : FilesOf kind table.locations := by
  obtain ⟨⟨-, hlocation⟩, hheader, hrows⟩ := h
  refine filesOf_cons.mpr ⟨by rw [hlocation]; exact hfile, ?_⟩
  refine filesOf_cons.mpr ⟨by rw [hheader]; exact hfile, ?_⟩
  intro location hmem
  obtain ⟨row, hrow, rfl⟩ := List.mem_map.mp hmem
  obtain ⟨raw, -, hraw⟩ := exists_of_mem_of_forall₂ hrows hrow
  rw [hraw]
  exact hfile

/-- Steps are in the files of the records they are located by, whatever else a kind of step has. -/
theorem filesOf_steps {α : Type} {line : α → StepLine} {steps : List α} {sources : List Placed}
    (h : List.Forall₂ (fun step placed => (line step).LocatedBy placed) steps sources)
    (hsources : ∀ placed ∈ sources, kind placed.file) :
    FilesOf kind (steps.flatMap fun step => (line step).locations) := by
  refine filesOf_flatMap.mpr fun step hstep => ?_
  obtain ⟨placed, hplaced, hlocated⟩ := exists_of_mem_of_forall₂ h hstep
  exact hlocated.filesOf (hsources placed hplaced)

theorem ScenarioHead.LocatedBy.filesOf {feature placed : Placed} {head : ScenarioHead}
    (h : head.LocatedBy feature placed) (hbackground : FilesOf kind head.background.locations)
    (hfeature : kind feature.file) (hfile : kind placed.file) : FilesOf kind head.locations := by
  refine filesOf_cons.mpr ⟨by rw [h.opening.location]; exact hfile, ?_⟩
  exact filesOf_append.mpr ⟨filesOf_append.mpr ⟨hbackground, h.tags.filesOf hfile⟩,
    h.featureTags.filesOf hfeature⟩

/-- What was taken from arrivals is in their files. -/
theorem kind_file_of_mem_filterMap {read : Arrival → Option Placed}
    (hread : ∀ arrival placed, read arrival = some placed → placed.file = arrival.file)
    {list : List Arrival} (hlist : ∀ arrival ∈ list, kind arrival.file) :
    ∀ placed ∈ list.filterMap read, kind placed.file := by
  intro placed hplaced
  obtain ⟨arrival, harrival, hsome⟩ := List.mem_filterMap.mp hplaced
  rw [hread arrival placed hsome]
  exact hlist arrival harrival

theorem Arrival.file_of_step? (arrival : Arrival) (placed : Placed)
    (h : arrival.step? = some placed) : placed.file = arrival.file := by
  obtain ⟨record, -, rfl⟩ := Option.map_eq_some_iff.mp h
  rfl

theorem Arrival.file_of_block? (arrival : Arrival) (placed : Placed)
    (h : arrival.block? = some placed) : placed.file = arrival.file := by
  obtain ⟨record, -, rfl⟩ := Option.map_eq_some_iff.mp h
  rfl

theorem Background.LocatedBy.filesOf {since : List Arrival} {background : Background}
    (h : background.LocatedBy since) (hsince : ∀ arrival ∈ since, kind arrival.file) :
    FilesOf kind background.locations := by
  cases h with
  | empty => exact fun _ hmem => nomatch hmem
  | @declared head language steps front rest file record taken arrived first hhead early located =>
    subst arrived
    obtain ⟨-, hsection⟩ := List.forall_mem_append.mp hsince
    obtain ⟨hopening, hrest⟩ := List.forall_mem_cons.mp hsection
    refine filesOf_cons.mpr ⟨by rw [hhead.location]; exact hopening, ?_⟩
    refine filesOf_steps located ?_
    intro placed hplaced
    -- Which of the section's steps were early enough does not matter for the files.
    refine kind_file_of_mem_filterMap Arrival.file_of_step? ?_ placed (early.subset hplaced)
    exact fun arrival harrival => hrest arrival ((List.takeWhile_prefix _).subset harrival)

/-- The files of a child: of its opening for the head, of its body for steps and tables, and those
of the feature for what it shares. -/
theorem Child.LocatedBy.filesOf {feature : Placed} {child : Child}
    {part : Arrival × List Arrival} (h : child.LocatedBy feature part)
    (hbackground : FilesOf kind child.head.background.locations) (hfeature : kind feature.file)
    (hopening : kind part.1.file) (hbody : ∀ arrival ∈ part.2, kind arrival.file) :
    FilesOf kind child.locations := by
  have hsteps := kind_file_of_mem_filterMap Arrival.file_of_step? hbody
  cases h with
  | scenario head steps =>
    refine filesOf_append.mpr ⟨head.filesOf hbackground hfeature hopening, ?_⟩
    exact filesOf_steps steps hsteps
  | @outline o _ _ _ head steps tables =>
    have hblocks := kind_file_of_mem_filterMap Arrival.file_of_block? hbody
    have htables : FilesOf kind (o.tables.flatMap ExamplesTable.locations) := by
      refine filesOf_flatMap.mpr fun table htable => ?_
      obtain ⟨block, hblock, hlocated⟩ := exists_of_mem_of_forall₂ tables htable
      exact hlocated.filesOf (hblocks block hblock)
    have htemplate : FilesOf kind o.templateLocations :=
      filesOf_append.mpr ⟨filesOf_steps steps hsteps, htables⟩
    have hhead := head.filesOf hbackground hfeature hopening
    refine filesOf_append.mpr ⟨filesOf_append.mpr ⟨hhead, htemplate⟩, ?_⟩
    -- No record arrives for an expanded step: it is where its row and its template are.
    exact fun location hmem => htemplate location (Outline.mem_templateLocations hmem)

/-- What is true of every file in effect since the feature opened is true of every file in the
tree. -/
theorem Feature.LocatedBy.filesOf {placed : Placed} {since : List Arrival} {feature : Feature}
    (h : feature.LocatedBy placed since) (hfile : kind placed.file)
    (hsince : ∀ arrival ∈ since, kind arrival.file) : FilesOf kind feature.locations := by
  obtain ⟨hhead, htags, hbackground, hchildren, hshared⟩ := h
  have hbackgroundFiles := hbackground.filesOf hsince
  refine filesOf_cons.mpr ⟨by rw [hhead.location]; exact hfile, ?_⟩
  refine filesOf_append.mpr ⟨filesOf_append.mpr ⟨htags.filesOf hfile, hbackgroundFiles⟩, ?_⟩
  refine filesOf_flatMap.mpr fun child hchild => ?_
  obtain ⟨part, hpart, hlocated⟩ := exists_of_mem_of_forall₂ hchildren hchild
  have hsection := (List.mem_filter.mp hpart).1
  refine hlocated.filesOf ?_ hfile (hsince _ (mem_of_mem_sections hsection))
    fun arrival harrival => hsince arrival (mem_of_mem_body hsection harrival)
  rw [hshared child hchild]
  exact hbackgroundFiles

end Files

/-! ## Separators -/

theorem PathStyle.slash_notMem_apply (path : String) :
    '/' ∉ (backslash.apply path).toList := by
  rw [apply, String.toList_ofList]
  intro h
  obtain ⟨c, -, hc⟩ := List.mem_map.mp h
  split at hc
  · exact absurd hc (by decide)
  · next hne => exact hne hc

/-! ## Sessions -/

namespace Session

variable [PatternEngine] {σ : Type} [DiagnosticSink σ]

/-- The tree that a session answers with is located by the arrivals of that session. -/
theorem locatedBy_of_result {settings : Settings} {sink : σ} {calls : List Call} {feature : Feature}
    (h : ((start settings sink).run calls).result = .ok (some feature)) :
    ∃ earlier placed since,
      settings.arrivals calls = earlier ++ ⟨placed.file, .openFeature placed.record⟩ :: since ∧
        (∀ arrival ∈ since, arrival.event.opensFeature = false) ∧
        feature.LocatedBy placed since := by
  obtain ⟨before, record, after, rfl, hafter, hmade⟩ := madeFrom_of_result h
  refine ⟨settings.arrivals before, ⟨settings.fileAfter before, record⟩, _,
    settings.arrivals_append before _, ?_, hmade.locatedBy⟩
  exact fun arrival harrival => opensNoFeature_iff.mp hafter _ (event_mem_of_mem_arrivals harrival)

/-- The paths that come last are in effect for nothing. -/
theorem result_run_setPaths (session : Session σ) (later : List String) :
    (session.run (later.map fun path => .event (.setPath path))).result = session.result := by
  induction later generalizing session with
  | nil => rfl
  | cons path later ih => exact ih _

/-- **A node is where its record was written.** The arrivals of a session are its events, each in
the file of the last path before it; the nodes of a tree are found in the files of the arrivals that
brought them, on the lines of their records. What follows moves none of them, and where separators
are backslashes no other separator is left. -/
theorem located_run_start (settings : Settings) (sink : σ) (calls : List Call) :
    (settings.arrivals calls).map Arrival.event = events calls ∧
    (∀ front event back, calls = front ++ .event event :: back →
      (settings.arrivals calls)[(events front).length]? =
        some ⟨settings.style.apply ((paths front).getLast?.getD settings.defaultPath), event⟩) ∧
    (∀ feature, ((start settings sink).run calls).result = .ok (some feature) →
      ∃ earlier placed since,
        settings.arrivals calls = earlier ++ ⟨placed.file, .openFeature placed.record⟩ :: since ∧
          (∀ arrival ∈ since, arrival.event.opensFeature = false) ∧
          feature.LocatedBy placed since ∧
          (settings.style = .backslash →
            ∀ location ∈ feature.locations, '/' ∉ location.file.toList)) ∧
    (∀ later, settings.arrivals calls <+: settings.arrivals (calls ++ later)) ∧
    ∀ later : List String,
      ((start settings sink).run
        (calls ++ later.map fun path => .event (.setPath path))).result =
          ((start settings sink).run calls).result := by
  refine ⟨map_event_arrivals .., ?_, ?_, ?_, ?_⟩
  · rintro front event back rfl
    exact settings.getElem?_arrivals front event back
  · intro feature h
    obtain ⟨earlier, placed, since, hcalls, hsince, hlocated⟩ := locatedBy_of_result h
    refine ⟨earlier, placed, since, hcalls, hsince, hlocated, fun hstyle => ?_⟩
    have hfiles : ∀ arrival ∈ settings.arrivals calls, '/' ∉ arrival.file.toList := by
      intro arrival harrival
      obtain ⟨given, hgiven⟩ := exists_file_eq_apply harrival
      rw [hgiven, hstyle]
      exact PathStyle.slash_notMem_apply given
    rw [hcalls] at hfiles
    obtain ⟨hplaced, hrest⟩ := List.forall_mem_cons.mp (List.forall_mem_append.mp hfiles).2
    have hnone : FilesOf (fun file => '/' ∉ file.toList) feature.locations :=
      hlocated.filesOf hplaced hrest
    exact hnone
  · intro later
    rw [settings.arrivals_append]
    exact List.prefix_append ..
  · intro later
    rw [run_append]
    exact result_run_setPaths _ later

omit [PatternEngine] in
/-- A path that is set behind a feature is not the path of anything in it: not of its steps, its tables
or the steps that they make. -/
theorem located_before_second_path :
    let _ : PatternEngine := .sizeLimited
    let settings : Settings := { style := .backslash }
    let opening : Record := { line := 1, keyword := "Feature", name := "" }
    let outline : Record := { line := 3, keyword := "Scenario Outline", name := "" }
    let step : Record := { line := 4, keyword := "Given", name := "<n> items", rows := [⟨["n"], 5⟩] }
    let block : Record :=
      { line := 7, keyword := "Examples", name := "", rows := [⟨["n"], 8⟩, ⟨["2"], 9⟩] }
    let calls : List Call := [.event (.setLanguage "en"), .event (.setPath "a/b.feature"),
      .event (.openFeature opening), .event (.openOutline outline), .event (.addStep step),
      .event (.addExamples block), .event (.setPath "c/d.feature")]
    let file := "a\\b.feature"
    ∃ feature template table expansion expanded,
      ((start settings IgnoreErrors.mk).run calls).result = .ok (some feature) ∧
      feature.outlines.map (·.steps) = [[template]] ∧
      feature.outlines.map (·.tables) = [[table]] ∧
      feature.outlines.map (·.expansions) = [[expansion]] ∧ expansion.steps = [expanded] ∧
      feature.location = ⟨file, 1⟩ ∧ template.location = ⟨file, 4⟩ ∧
      template.argument.map Argument.location = some ⟨file, 5⟩ ∧
      table.location = ⟨file, 7⟩ ∧ table.header.location = ⟨file, 8⟩ ∧
      expansion.row.location = ⟨file, 9⟩ ∧ expanded.location = ⟨file, 9⟩ ∧
      ∀ location ∈ feature.locations, '/' ∉ location.file.toList := by
  intro _ settings opening outline step block calls file
  obtain ⟨-, -, hlocated, -, -⟩ := located_run_start settings IgnoreErrors.mk calls
  obtain ⟨_, _, _, -, -, -, hseparators⟩ := hlocated _ rfl
  exact ⟨_, _, _, _, _, rfl, rfl, rfl, rfl, rfl, by decide, by decide, by decide, by decide,
    by decide, by decide, by decide, hseparators rfl⟩

end Session
end FeatureTree
