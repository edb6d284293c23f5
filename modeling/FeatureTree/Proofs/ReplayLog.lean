import FeatureTree.Proofs.Conservation
import FeatureTree.Proofs.Limits
import FeatureTree.Proofs.Protocol

/-!
# The log of a replay

A document that is replayed is told in the order of a well-behaved reader. **Nothing that it tells is
dropped, whatever the session has seen before,** and what a fresh session warns about can be read off
the document: the backgrounds of its rules, which are not told, and the examples of its scenarios,
where they have no header or where a row does not have as many cells as the header has.

One more warning is not about the document's shape. A header whose pattern the engine refuses is
reported as well, before its rows.
-/

set_option autoImplicit false

namespace FeatureTree

/-! ## In the order of a reader -/

namespace Document

open Protocol (Follows follows_char)

theorem follows_steps (steps : List Document.Step) :
    Follows Protocol.steps (steps.map fun step => .addStep step.record) := by
  rw [List.map_eq_flatMap]
  exact Follows.star fun step _ => follows_char (.addStep step.record)

theorem follows_blocks {blocks : List Document.Examples} (h : blocks ≠ []) :
    Follows Protocol.blocks (blocks.map fun block => .addExamples block.record) := by
  obtain ⟨first, rest, rfl⟩ := List.exists_cons_of_ne_nil h
  refine Follows.cons (.addExamples first.record) ?_
  rw [List.map_eq_flatMap]
  exact Follows.star fun block _ => follows_char (.addExamples block.record)

theorem Background.follows_events (background : Document.Background) :
    Follows Protocol.background background.events :=
  .cons (.openBackground background.record) (follows_steps background.steps)

/-- The grammar makes the distinction that the document's events make: examples, or none. -/
theorem Scenario.follows_events (scenario : Document.Scenario) :
    Follows (Protocol.scenario + Protocol.outline) scenario.events := by
  have hsteps := follows_steps scenario.steps
  unfold events
  split
  · exact .inl (Follows.cons (.openScenario scenario.record) hsteps)
  · next h =>
    have hblocks := follows_blocks (mt List.isEmpty_iff.mpr h)
    exact .inr ((Follows.cons (.openOutline scenario.record) hsteps).append hblocks)

theorem Feature.follows_background (document : Document.Feature) :
    Follows (1 + Protocol.background) (document.background.toList.flatMap Background.events) := by
  cases document.background with
  | none => exact .inl rfl
  | some background =>
    refine .inr ?_
    rw [Option.toList_some, List.flatMap_singleton]
    exact background.follows_events

theorem Feature.follows_scenarios (document : Document.Feature) :
    Follows (Protocol.scenario + Protocol.outline).star
      (document.scenariosByLine.flatMap Scenario.events) :=
  Follows.star fun scenario _ => scenario.follows_events

theorem Feature.follows_events (document : Document.Feature) (path code : String) :
    Follows Protocol.document (document.events path code) := by
  have hopening : Follows Protocol.opening
      [.setPath path, .setLanguage code, .openFeature document.record] :=
    ((follows_char (.setPath path)).append (follows_char (.setLanguage code))).append
      (follows_char (.openFeature document.record))
  unfold events openingEvents scenarioEvents
  rw [← List.append_assoc]
  exact ((hopening.append document.follows_background).append
    document.follows_scenarios).append (follows_char .endOfDocument)

end Document

/-! ## What is said of it -/

namespace Session

variable [PatternEngine] {σ : Type} [DiagnosticSink σ]

/-- An event that is not for a place loses nothing, not even one that opens a feature. -/
theorem isLoss_of_no_place (session : Session σ) {event : Event} (hplace : event.place? = none) :
    ∀ notice ∈ (session.handle event).notices, notice.isLoss = false := by
  cases event with
  | openFeature record =>
    intro notice hnotice
    rcases List.mem_cons.mp hnotice with rfl | hsecond
    · rfl
    · obtain ⟨draft, -, rfl⟩ := List.mem_map.mp hsecond
      rfl
  | _ => exact (session.handle_of_no_place hplace rfl).2

/-- The run form, for events that are all about no place. -/
theorem isLoss_of_no_places {session : Session σ} {events : List Event}
    (hplaces : ∀ event ∈ events, event.place? = none) :
    ∀ notice ∈ session.notices (events.map Call.event), notice.isLoss = false := by
  induction events generalizing session with
  | nil => exact fun _ h => nomatch h
  | cons event events ih =>
    obtain ⟨hplace, hrest⟩ := List.forall_mem_cons.mp hplaces
    intro notice hnotice
    rcases List.mem_append.mp hnotice with hone | hothers
    · exact session.isLoss_of_no_place hplace notice hone
    · exact ih hrest notice hothers

/-- What is told in order is not lost. -/
theorem isLoss_of_follows {session : Session σ} {events : List Event}
    (h : Protocol.Follows Protocol.document events) :
    ∀ notice ∈ session.notices (events.map Call.event), notice.isLoss = false := by
  obtain ⟨path, code, record, told, hevents, hkeeps⟩ := exists_keeps_of_follows (σ := σ) h
  -- Three parts: the opening and the end are for no place, and what is between them is kept.
  have hfits : (session.run (opening path code record)).CursorFits := .nowhere
  rw [hevents, notices_append, notices_append, (hkeeps session).notices hfits]
  intro notice hnotice
  rcases List.mem_append.mp hnotice with hfront | hend
  · rcases List.mem_append.mp hfront with hopening | htold
    · have hplaces : ∀ event ∈ [.setPath path, .setLanguage code, .openFeature record],
          Event.place? event = none := by simp [Event.place?]
      exact isLoss_of_no_places hplaces notice hopening
    · obtain ⟨event, -, hevent⟩ := List.mem_flatMap.mp htold
      exact Event.isLoss_of_mem_remarks hevent
  · rw [List.mem_singleton.mp hend]
    rfl

end Session

/-! ## A replay -/

namespace Document

/-- The warning that the columns of examples are too large for the pattern engine. -/
def Examples.sizeWarnings [PatternEngine] (block : Document.Examples) : List Notice :=
  match block.table with
  | some ⟨columns :: _, _⟩ =>
    if (Matcher.ofNames columns).compiles then [] else [.headerTooLarge PatternEngine.sizeLimit]
  | _ => []

/-- The warnings about the shape of examples in a file: one if they have no header, or else one for
each row that does not have as many cells as the header has. -/
def Examples.shapeWarnings (file : String) (block : Document.Examples) : List Notice :=
  match block.table with
  | some ⟨columns :: rows, line⟩ =>
    (rows.zipIdx (line + 1)).filterMap fun row =>
      if row.1.length = columns.length then none
      else some (.raggedRow ⟨file, row.2⟩ row.1.length columns.length)
  | _ => [.examplesWithoutHeader ⟨file, block.line⟩]

def Examples.warnings [PatternEngine] (file : String) (block : Document.Examples) : List Notice :=
  block.sizeWarnings ++ block.shapeWarnings file

/-- What a session says about a block is read off the block, before it became a record. -/
theorem Examples.notices_record [PatternEngine] (file : String) (block : Document.Examples) :
    ExamplesTable.notices ⟨file, block.record⟩ = block.warnings file := by
  have hrows : block.record.rows = rawRows block.table := rfl
  unfold ExamplesTable.notices warnings sizeWarnings shapeWarnings Header.ofPlaced
  dsimp only
  rw [hrows]
  rcases block.table with _ | ⟨_ | ⟨columns, rows⟩, line⟩
  · rfl
  · rfl
  · rw [rawRows_cons]
    dsimp only
    rw [List.flatMap_map, List.filterMap_eq_flatMap_toList]
    refine congrArg (_ ++ ·) (List.flatMap_congr fun row _ => ?_)
    unfold Header.rowNotices
    dsimp only
    split <;> rfl

theorem Examples.level_of_mem_sizeWarnings [PatternEngine] {block : Document.Examples}
    {notice : Notice} (h : notice ∈ block.sizeWarnings) : notice.level = .warn := by
  unfold sizeWarnings at h
  split at h
  · split at h
    · exact nomatch h
    · rw [List.mem_singleton.mp h]
      rfl
  · exact nomatch h

theorem Examples.level_of_mem_shapeWarnings {file : String} {block : Document.Examples}
    {notice : Notice} (h : notice ∈ block.shapeWarnings file) : notice.level = .warn := by
  unfold shapeWarnings at h
  split at h
  · obtain ⟨row, -, hrow⟩ := List.mem_filterMap.mp h
    split at hrow
    · exact nomatch hrow
    · rw [← Option.some.inj hrow]
      rfl
  · rw [List.mem_singleton.mp h]
    rfl

theorem Background.remarks_events [PatternEngine] (file : String)
    (background : Document.Background) :
    background.events.flatMap (Event.remarks file) = [] := by
  refine List.flatMap_eq_nil_iff.mpr ?_
  intro event hevent
  rcases List.mem_cons.mp hevent with rfl | hstep
  · rfl
  · obtain ⟨step, -, rfl⟩ := List.mem_map.mp hstep
    rfl

/-- What there is to say about a scenario is about its examples. -/
theorem Scenario.remarks_events [PatternEngine] (file : String) (scenario : Document.Scenario) :
    scenario.events.flatMap (Event.remarks file) =
      scenario.examples.flatMap (Examples.warnings file) := by
  have hopening : scenario.opening.remarks file = [] := by
    unfold opening
    split <;> rfl
  have hsteps : scenario.steps.flatMap (fun step => Event.remarks file (.addStep step.record)) =
      [] := List.flatMap_eq_nil_iff.mpr fun _ _ => rfl
  rw [scenario.events_eq, List.flatMap_cons, hopening, body, List.flatMap_append,
    List.flatMap_map, List.flatMap_map, hsteps]
  exact List.flatMap_congr fun block _ => block.notices_record file

namespace Feature

theorem level_of_mem_ruleNotices {document : Document.Feature} {path : String}
    {notice : Notice} (h : notice ∈ document.ruleNotices path) : notice.level = .warn := by
  obtain ⟨rule, -, rfl⟩ := List.mem_map.mp h
  rfl

variable [PatternEngine]

/-- The warnings about the examples of a document in a file, in the order in which it is told. -/
def exampleWarnings (document : Document.Feature) (file : String) : List Notice :=
  document.scenariosByLine.flatMap fun scenario =>
    scenario.examples.flatMap (Examples.warnings file)

theorem level_of_mem_exampleWarnings {document : Document.Feature} {file : String}
    {notice : Notice} (h : notice ∈ document.exampleWarnings file) : notice.level = .warn := by
  obtain ⟨scenario, -, hscenario⟩ := List.mem_flatMap.mp h
  obtain ⟨block, -, hblock⟩ := List.mem_flatMap.mp hscenario
  rcases List.mem_append.mp hblock with hsize | hshape
  · exact Examples.level_of_mem_sizeWarnings hsize
  · exact Examples.level_of_mem_shapeWarnings hshape

variable {σ : Type} [DiagnosticSink σ]

/-- A replay runs through the events of the document in order. -/
theorem session_replay_events (document : Document.Feature) (path code : String)
    (session : Session σ) :
    (document.replay path code session).session =
      session.run ((document.events path code).map Call.event) := by
  unfold events
  rw [List.map_append, Session.run_append]
  rfl

/-- The log of a replay is that of the run and the notices about rules, which come in between. -/
theorem mem_notices_replay {document : Document.Feature} {path code : String}
    {session : Session σ} {notice : Notice}
    (h : notice ∈ (document.replay path code session).notices) :
    notice ∈ session.notices ((document.events path code).map Call.event) ∨
      notice ∈ document.ruleNotices path := by
  have hevents : session.notices ((document.events path code).map Call.event) =
      session.notices ((document.openingEvents path code).map Call.event) ++
        (session.run ((document.openingEvents path code).map Call.event)).notices
          (document.scenarioEvents.map Call.event) := by
    unfold events
    rw [List.map_append, Session.notices_append]
  rw [hevents, List.mem_append]
  rcases List.mem_append.mp h with hfront | htold
  · rcases List.mem_append.mp hfront with hopened | hrules
    · exact .inl (.inl hopened)
    · exact .inr hrules
  · exact .inl (.inr htold)

/-- Once the feature is open, there is nothing to say about its background, and about its scenarios
only what there is to say about examples. -/
theorem notices_sections (document : Document.Feature) {session : Session σ} {placed : Placed}
    (hd : session.draft = some { placed }) (hfits : session.CursorFits) :
    let background := (document.background.toList.flatMap Background.events).map Call.event
    let scenarios := (document.scenariosByLine.flatMap Scenario.events).map Call.event
    session.notices background = [] ∧
      (session.run background).notices scenarios = document.exampleWarnings session.path := by
  intro background scenarios
  have hkeeps := Session.keeps_of_follows hd document.follows_background document.follows_scenarios
  have hbackground : session.notices background = [] := by
    rw [hkeeps.left.notices hfits, List.flatMap_assoc]
    exact List.flatMap_eq_nil_iff.mpr fun background _ => background.remarks_events _
  refine ⟨hbackground, ?_⟩
  -- What is said of all sections, less what is said of the background, is about the scenarios.
  have hall := hkeeps.notices hfits
  rw [List.map_append, Session.notices_append, List.flatMap_append,
    ← hkeeps.left.notices hfits, hbackground, List.nil_append, List.nil_append] at hall
  rw [hall, List.flatMap_assoc]
  exact List.flatMap_congr fun scenario _ => scenario.remarks_events _

/-- All that a fresh session has to say about a replay. -/
theorem notices_replay_start (document : Document.Feature) (path code : String)
    (settings : Settings) (sink : σ) :
    (document.replay path code (Session.start settings sink)).notices =
      .featureOpened (Text.trimStart document.name) (settings.style.apply path) ::
        (document.ruleNotices path ++
          (document.exampleWarnings (settings.style.apply path) ++
            [.documentEnded (settings.style.apply path)])) := by
  let fresh := Session.start settings sink
  let opened := fresh.run (Session.opening path code document.record)
  let background := (document.background.toList.flatMap Background.events).map Call.event
  let scenarios := (document.scenariosByLine.flatMap Scenario.events).map Call.event
  obtain ⟨hbackground, hscenarios⟩ :
      opened.notices background = [] ∧ (opened.run background).notices scenarios = _ :=
    document.notices_sections rfl .nowhere
  have hopening : (document.openingEvents path code).map Call.event =
      Session.opening path code document.record ++ background :=
    List.map_append
  have hopened : fresh.notices ((document.openingEvents path code).map Call.event) =
      [.featureOpened (Text.trimStart document.name) (settings.style.apply path)] := by
    rw [hopening, Session.notices_append]
    exact congrArg (_ :: ·) hbackground
  -- The last event is noted with the path in effect, which is still that of the opening.
  have hpath : ((opened.run background).run scenarios).path = settings.style.apply path := by
    rw [← Session.run_append, ← List.map_append]
    exact (opened.run_surroundings fun event he =>
      (document.opens_no_feature_sectionEvents event he).1).path
  have htold : (fresh.run ((document.openingEvents path code).map Call.event)).notices
      (document.scenarioEvents.map Call.event) =
        document.exampleWarnings (settings.style.apply path) ++
          [.documentEnded (settings.style.apply path)] := by
    unfold scenarioEvents
    rw [hopening, Session.run_append, List.map_append, Session.notices_append, hscenarios]
    show _ ++ [Notice.documentEnded _] = _
    rw [hpath]
    rfl
  show fresh.notices _ ++ document.ruleNotices path ++ Session.notices (fresh.run _) _ = _
  rw [hopened, htold]
  rfl

omit [PatternEngine] [DiagnosticSink σ] in
/-- The final answer is noted for debugging and warns about nothing. -/
theorem level_of_mem_notices_settle {session : Session σ} {notice : Notice}
    (h : notice ∈ session.settle.notices) : notice.level = .debug := by
  unfold Session.settle at h
  split at h
  · rw [List.mem_singleton.mp h]
    rfl
  · exact nomatch h

/-- What a fresh session warns about, in the lines of its log: the rules, and then the examples. -/
theorem warnings_replay_start (document : Document.Feature) (path code : String)
    (settings : Settings) (sink : σ) :
    let replayed := document.replay path code (Session.start settings sink)
    let log := (replayed.notices ++ replayed.session.settle.notices).map Notice.render
    log.filter (LogLine.IsWarning ·) =
      (document.ruleNotices path ++
        document.exampleWarnings (settings.style.apply path)).map Notice.render := by
  intro replayed log
  have hsettle : replayed.session.settle.notices.filter (·.level = .warn) = [] := by
    refine List.filter_eq_nil_iff.mpr fun notice h => ?_
    rw [level_of_mem_notices_settle h]
    exact Bool.false_ne_true
  have hrules : (document.ruleNotices path).filter (·.level = .warn) =
      document.ruleNotices path :=
    List.filter_eq_self.mpr fun notice h => decide_eq_true (level_of_mem_ruleNotices h)
  have hexamples : (document.exampleWarnings (settings.style.apply path)).filter
      (·.level = .warn) = document.exampleWarnings (settings.style.apply path) :=
    List.filter_eq_self.mpr fun notice h => decide_eq_true (level_of_mem_exampleWarnings h)
  refine (Notice.filter_isWarning_map_render _).trans (congrArg (List.map Notice.render) ?_)
  rw [List.filter_append, hsettle, List.append_nil,
    notices_replay_start document path code settings sink]
  show List.filter _ (document.ruleNotices path ++ _) = document.ruleNotices path ++ _
  rw [List.filter_append, hrules, List.filter_append, hexamples]
  exact congrArg (_ ++ ·) (List.append_nil _)

/-- **A replay is told in order and nothing of it is dropped.** The order is that of the grammar, no
session reports a loss, and what a fresh one warns about is known from the document and the pattern
engine. -/
theorem log_replay (document : Document.Feature) (path code : String) :
    Protocol.Follows Protocol.document (document.events path code) ∧
    (∀ session : Session σ,
      (document.replay path code session).session =
        session.run ((document.events path code).map Call.event) ∧
      ∀ line ∈ (document.replay path code session).notices.map Notice.render,
        ¬ LogLine.ReportsLoss line) ∧
    ∀ (settings : Settings) (sink : σ),
      let replayed := document.replay path code (Session.start settings sink)
      let log := (replayed.notices ++ replayed.session.settle.notices).map Notice.render
      log.filter (LogLine.IsWarning ·) =
        ((document.rules.filter (·.background.isSome)).map (fun rule =>
            Notice.ruleBackground path rule.name rule.line) ++
          document.exampleWarnings (settings.style.apply path)).map Notice.render := by
  refine ⟨document.follows_events path code, ?_, ?_⟩
  · intro session
    refine ⟨document.session_replay_events path code session, ?_⟩
    intro line hline
    refine Notice.not_reportsLoss_of_mem_map ?_ hline
    intro notice hnotice
    rcases mem_notices_replay hnotice with htold | hrule
    · exact Session.isLoss_of_follows (document.follows_events path code) notice htold
    · obtain ⟨rule, -, rfl⟩ := List.mem_map.mp hrule
      rfl
  · exact document.warnings_replay_start path code

omit [PatternEngine] [DiagnosticSink σ] in
/-- A document with one table, of one column with that many letters in its name. Nothing is wrong with
its shape. -/
theorem warnings_replay_of_many_letters {n : Nat} (h : 10485760 < 32 * n) :
    let _ : PatternEngine := .sizeLimited
    let name := String.ofList (List.replicate n 'a')
    let block : Document.Examples :=
      { keyword := "Examples", line := 5, table := some ⟨[[name], ["v"]], 6⟩ }
    let step : Document.Step := { keyword := "Given ", value := "x", line := 4 }
    let outline : Document.Scenario :=
      { keyword := "Scenario Outline", name := "", line := 3, steps := [step],
        examples := [block] }
    let document : Document.Feature :=
      { keyword := "Feature", name := "", line := 1, scenarios := [outline] }
    let replayed := document.replay "cart.feature" "en" (Session.start {} IgnoreErrors.mk)
    let log := (replayed.notices ++ replayed.session.settle.notices).map Notice.render
    let expected := document.ruleNotices "cart.feature" ++
      document.scenariosByLine.flatMap fun scenario =>
        scenario.examples.flatMap (Examples.shapeWarnings "cart.feature")
    expected = [] ∧
      log.filter (LogLine.IsWarning ·) =
        ["WARN examples header cannot be compiled for expansion: " ++
          "Compiled regex exceeds size limit of 10485760 bytes."] ∧
      log.filter (LogLine.IsWarning ·) ≠ expected.map Notice.render := by
  intro _ name block step outline document replayed log expected
  have hscenarios : document.scenariosByLine = [outline] := List.mergeSort_singleton _
  have hsize : block.sizeWarnings = [.headerTooLarge 10485760] := by
    unfold Examples.sizeWarnings
    exact if_neg (ne_true_of_eq_false (Matcher.refused_of_many_letters h))
  have hexamples : document.exampleWarnings "cart.feature" = [.headerTooLarge 10485760] := by
    unfold exampleWarnings
    rw [hscenarios, List.flatMap_singleton]
    show (block.sizeWarnings ++ []) ++ [] = _
    rw [hsize]
    rfl
  have hexpected : expected = [] := by
    show [] ++ List.flatMap _ document.scenariosByLine = []
    rw [hscenarios]
    rfl
  -- The log is what the document and the engine say it is; only the engine has something to say
  -- here.
  have hlog : log.filter (LogLine.IsWarning ·) = [(Notice.headerTooLarge 10485760).render] := by
    refine (document.warnings_replay_start "cart.feature" "en" {} IgnoreErrors.mk).trans ?_
    show ([] ++ document.exampleWarnings "cart.feature").map Notice.render = _
    rw [hexamples]
    rfl
  refine ⟨hexpected, hlog, ?_⟩
  rw [hlog, hexpected]
  exact List.cons_ne_nil _ _

omit [PatternEngine] [DiagnosticSink σ] in
/-- Half a million letters are worth a warning that the shape of the document does not call for. -/
theorem log_replay_over_limit :
    let _ : PatternEngine := .sizeLimited
    let name := String.ofList (List.replicate 500000 'a')
    let block : Document.Examples :=
      { keyword := "Examples", line := 5, table := some ⟨[[name], ["v"]], 6⟩ }
    let step : Document.Step := { keyword := "Given ", value := "x", line := 4 }
    let outline : Document.Scenario :=
      { keyword := "Scenario Outline", name := "", line := 3, steps := [step],
        examples := [block] }
    let document : Document.Feature :=
      { keyword := "Feature", name := "", line := 1, scenarios := [outline] }
    let replayed := document.replay "cart.feature" "en" (Session.start {} IgnoreErrors.mk)
    let log := (replayed.notices ++ replayed.session.settle.notices).map Notice.render
    let expected := document.ruleNotices "cart.feature" ++
      document.scenariosByLine.flatMap fun scenario =>
        scenario.examples.flatMap (Examples.shapeWarnings "cart.feature")
    expected = [] ∧
      log.filter (LogLine.IsWarning ·) =
        ["WARN examples header cannot be compiled for expansion: " ++
          "Compiled regex exceeds size limit of 10485760 bytes."] ∧
      log.filter (LogLine.IsWarning ·) ≠ expected.map Notice.render :=
  warnings_replay_of_many_letters (by decide)

end Feature
end Document
end FeatureTree
