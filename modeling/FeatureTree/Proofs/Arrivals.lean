import FeatureTree.Proofs.Questions
import FeatureTree.Proofs.Sections

/-!
# Where events go

A session sends steps and examples to whatever its cursor points at. Seen from the history there is
no cursor: the events since the feature opened fall into sections, each opened by a background, a
scenario or an outline, and **what a section holds is what its opening event gets.** This file
proves that the cursor does just that, `draft_run` being the statement.

The proof has three steps. An event that opens nothing reaches the thing under the cursor and moves
no cursor; so a body of such events reaches it as a whole; and an opening event points the cursor at
what it has made, so that a section makes one child, or the background, or nothing.
-/

set_option autoImplicit false

namespace FeatureTree

/-- An event and the file in effect when it arrives. -/
structure Arrival where
  file : String
  event : Event

namespace Arrival

def opensContainer (arrival : Arrival) : Bool :=
  arrival.event.opensContainer

def step? (arrival : Arrival) : Option Placed :=
  arrival.event.step?.map (⟨arrival.file, ·⟩)

def block? (arrival : Arrival) : Option Placed :=
  arrival.event.block?.map (⟨arrival.file, ·⟩)

end Arrival

/-- The events with the files in effect, where `file` is the one at the start. -/
def arrivals (style : PathStyle) (file : String) : List Event → List Arrival
  | [] => []
  | event :: events => ⟨file, event⟩ :: arrivals style (event.fileAfter style file) events

theorem arrivals_append (style : PathStyle) (file : String) (first second : List Event) :
    arrivals style file (first ++ second) =
      arrivals style file first ++
        arrivals style (first.foldl (Event.fileAfter style) file) second := by
  induction first generalizing file with
  | nil => rfl
  | cons event first ih => rw [List.cons_append, arrivals, arrivals, ih]; rfl

/-- Arrivals are the events and nothing more; each only knows its file as well. -/
theorem map_event_arrivals (style : PathStyle) (file : String) (events : List Event) :
    (arrivals style file events).map Arrival.event = events := by
  induction events generalizing file with
  | nil => rfl
  | cons event events ih => rw [arrivals, List.map_cons, ih]

theorem event_mem_of_mem_arrivals {style : PathStyle} {file : String} {events : List Event}
    {arrival : Arrival} (h : arrival ∈ arrivals style file events) : arrival.event ∈ events := by
  rw [← map_event_arrivals style file events]
  exact List.mem_map_of_mem h

/-- Records change no path, so that all of them arrive under the same file. -/
theorem arrivals_of_records (style : PathStyle) (file : String) {events : List Event}
    (h : ∀ event ∈ events, event.record?.isSome) :
    arrivals style file events = events.map (Arrival.mk file) := by
  induction events with
  | nil => rfl
  | cons event events ih =>
    obtain ⟨hevent, hevents⟩ := List.forall_mem_cons.mp h
    have hpath : event.fileAfter style file = file := by
      cases event with
      | setPath => exact Bool.noConfusion hevent
      | _ => rfl
    rw [arrivals, hpath, ih hevents, List.map_cons]

/-! ## Changing one entry of a list -/

/-- The session looks a child up and sets the changed one, while `extend` modifies in place. -/
theorem modify_eq_set_of_getElem? {α : Type} {l : List α} {i : Nat} {a : α} (f : α → α)
    (h : l[i]? = some a) : l.modify i f = l.set i (f a) := by
  induction l generalizing i with
  | nil => exact nomatch h
  | cons b l ih =>
    cases i with
    | zero => rw [← Option.some.inj h]; rfl
    | succ i => rw [List.modify_succ_cons, List.set_cons_succ, ih h]

/-- The child under a cursor at the end is the one that was put there last. -/
theorem modify_append_length {α : Type} (l : List α) (a : α) (f : α → α) :
    (l ++ [a]).modify l.length f = l ++ [f a] := by
  rw [modify_eq_set_of_getElem? f List.getElem?_concat_length,
    List.set_append_right _ _ (Nat.le_refl _), Nat.sub_self]
  rfl

theorem modify_eq_self_of_getElem? {α : Type} {l : List α} {i : Nat} {a : α} {f : α → α}
    (h : l[i]? = some a) (hf : f a = a) : l.modify i f = l := by
  obtain ⟨hlt, hget⟩ := List.getElem?_eq_some_iff.mp h
  rw [modify_eq_set_of_getElem? f h, hf, ← hget, List.set_getElem_self]

/-! ## What a body of events adds -/

/-- The background with the steps of a body of events. -/
def BackgroundDraft.extend (draft : BackgroundDraft) (body : List Arrival) : BackgroundDraft :=
  { draft with steps := draft.steps ++ body.filterMap Arrival.step? }

theorem BackgroundDraft.extend_block (draft : BackgroundDraft) (file : String)
    (record : Record) : draft.extend [⟨file, .addExamples record⟩] = draft := by
  show { draft with steps := draft.steps ++ [] } = draft
  rw [List.append_nil]

variable [PatternEngine]

/-- The child with the steps, and if it is an outline the examples, of a body of events. -/
def ChildDraft.extend (draft : ChildDraft) (body : List Arrival) : ChildDraft :=
  match draft with
  | scenario placed steps => scenario placed (steps ++ body.filterMap Arrival.step?)
  | outline placed steps tables =>
    outline placed (steps ++ body.filterMap Arrival.step?)
      (tables ++ (body.filterMap Arrival.block?).map .ofPlaced)

def FeatureDraft.extend (cursor : Option Cursor) (body : List Arrival) (draft : FeatureDraft) :
    FeatureDraft :=
  match cursor with
  | none => draft
  | some .background => { draft with background := draft.background.map (·.extend body) }
  | some (.child index) =>
    { draft with children := draft.children.modify index (·.extend body) }

/-- A body can be added in two parts, which is what the induction over a body takes off one by one.
-/
theorem ChildDraft.extend_append (draft : ChildDraft) (first second : List Arrival) :
    draft.extend (first ++ second) = (draft.extend first).extend second := by
  cases draft <;> simp [extend]

theorem FeatureDraft.extend_append (cursor : Option Cursor) (first second : List Arrival)
    (draft : FeatureDraft) :
    draft.extend cursor (first ++ second) = (draft.extend cursor first).extend cursor second := by
  rcases cursor with _ | _ | index
  · rfl
  · simp [extend, BackgroundDraft.extend, Function.comp_def]
  · simp [extend, List.modify_modify_eq, Function.comp_def, ChildDraft.extend_append]

/-- A body without steps and examples adds nothing, wherever the cursor is. -/
theorem FeatureDraft.extend_idle {body : List Arrival} (hstep : body.filterMap Arrival.step? = [])
    (hblock : body.filterMap Arrival.block? = []) (cursor : Option Cursor)
    (draft : FeatureDraft) : draft.extend cursor body = draft := by
  have hchild : (fun child : ChildDraft => child.extend body) = id := by
    funext child
    cases child <;> simp [ChildDraft.extend, hstep, hblock]
  have hbackground : (fun background : BackgroundDraft => background.extend body) = id := by
    funext background
    simp [BackgroundDraft.extend, hstep]
  rcases cursor with _ | _ | index
  · rfl
  · simp only [extend, hbackground, Option.map_id, id]
  · simp only [extend, hchild, List.modify_id]

/-! ## One event, and a body of them -/

theorem ChildDraft.extend_step (draft : ChildDraft) (file : String) (record : Record) :
    draft.extend [⟨file, .addStep record⟩] = draft.addStep ⟨file, record⟩ := by
  cases draft with
  | scenario => rfl
  | outline placed steps tables =>
    show outline placed (steps ++ [⟨file, record⟩]) (tables ++ []) = _
    rw [List.append_nil]
    rfl

theorem ChildDraft.extend_block_scenario (placed : Placed) (steps : List Placed) (file : String)
    (record : Record) :
    (scenario placed steps).extend [⟨file, .addExamples record⟩] = scenario placed steps := by
  show scenario placed (steps ++ []) = _
  rw [List.append_nil]

theorem ChildDraft.extend_block_outline (placed : Placed) (steps : List Placed)
    (tables : List ExamplesTable) (file : String) (record : Record) :
    (outline placed steps tables).extend [⟨file, .addExamples record⟩] =
      outline placed steps (tables ++ [.ofPlaced ⟨file, record⟩]) := by
  show outline placed (steps ++ []) _ = _
  rw [List.append_nil]
  rfl

namespace Session

variable {σ : Type}

omit [PatternEngine] in
theorem inFeature_of_draft {session : Session σ} {draft : FeatureDraft} {event : Event}
    {line : Nat} {react : FeatureDraft → Reaction σ} (hd : session.draft = some draft) :
    session.inFeature event line react = react draft := by
  unfold inFeature
  rw [hd]

omit [PatternEngine] in
/-- Before the first feature there is nothing to react to. -/
theorem draft_inFeature {session : Session σ} {event : Event} {line : Nat}
    {react : FeatureDraft → Reaction σ} {f : FeatureDraft → FeatureDraft}
    (h : ∀ draft, session.draft = some draft →
      (react draft).session = { session with draft := some (f draft) }) :
    (session.inFeature event line react).session.cursor = session.cursor ∧
      (session.inFeature event line react).session.draft = session.draft.map f := by
  cases hd : session.draft with
  | none =>
    unfold inFeature
    rw [hd]
    exact ⟨rfl, hd⟩
  | some draft =>
    rw [inFeature_of_draft hd, h draft hd]
    exact ⟨rfl, rfl⟩

/-- A step reaches what is under the cursor. A cursor without anything under it loses the step, and
then `extend` changes nothing either. -/
theorem addStep_eq_extend {session : Session σ} {draft : FeatureDraft} (record : Record)
    (hd : session.draft = some draft) :
    (session.addStep record draft).session =
      { session with
        draft := some (draft.extend session.cursor [⟨session.path, .addStep record⟩]) } := by
  -- The fields have to be seen, for the reaction rebuilds the session field by field.
  obtain ⟨settings, path, language, _, cursor, sink⟩ := session
  obtain ⟨placed, background, children, settled⟩ := draft
  obtain rfl := hd
  rcases cursor with _ | _ | index
  · rfl
  · cases background <;> rfl
  · unfold addStep
    simp only [FeatureDraft.extend]
    rcases hi : children[index]? with _ | child
    · rw [List.modify_eq_self (List.getElem?_eq_none_iff.mp hi)]
      rfl
    · rw [modify_eq_set_of_getElem? _ hi, ChildDraft.extend_step]
      rfl

/-- Examples reach an outline, and nothing else takes them. -/
theorem addExamples_eq_extend {session : Session σ} {draft : FeatureDraft} (record : Record)
    (hd : session.draft = some draft) :
    (session.addExamples record draft).session =
      { session with
        draft := some (draft.extend session.cursor [⟨session.path, .addExamples record⟩]) } := by
  obtain ⟨settings, path, language, _, cursor, sink⟩ := session
  obtain ⟨placed, background, children, settled⟩ := draft
  obtain rfl := hd
  rcases cursor with _ | _ | index
  · rfl
  · cases background with
    | none => rfl
    | some background =>
      simp only [FeatureDraft.extend, Option.map_some, BackgroundDraft.extend_block]
      rfl
  · unfold addExamples
    simp only [FeatureDraft.extend]
    rcases hi : children[index]? with _ | _ | _
    · rw [List.modify_eq_self (List.getElem?_eq_none_iff.mp hi)]
      rfl
    · rw [modify_eq_self_of_getElem? hi (ChildDraft.extend_block_scenario ..)]
      rfl
    · rw [modify_eq_set_of_getElem? _ hi, ChildDraft.extend_block_outline]
      rfl

/-- The body of a section reaches the child that its opening event made. -/
theorem openChild_extend (session : Session σ) (child : ChildDraft) (draft : FeatureDraft)
    (body : List Arrival) :
    let opened := (session.openChild child draft).session
    opened.draft.map (·.extend opened.cursor body) =
      some { draft with children := draft.children ++ [child.extend body] } := by
  intro opened
  exact congrArg (fun children => some { draft with children })
    (modify_append_length draft.children child _)

variable [DiagnosticSink σ]

section Open

variable {session : Session σ} {draft : FeatureDraft} (hd : session.draft = some draft)
  (record : Record)

include hd

/-- With a feature open, the five events about its content are their reactions. -/
theorem handle_openBackground :
    session.handle (.openBackground record) = session.openBackground record draft :=
  inFeature_of_draft hd

theorem handle_openScenario :
    session.handle (.openScenario record) =
      session.openChild (.scenario (session.place record) []) draft :=
  inFeature_of_draft hd

theorem handle_openOutline :
    session.handle (.openOutline record) =
      session.openChild (.outline (session.place record) [] []) draft :=
  inFeature_of_draft hd

theorem handle_addStep : session.handle (.addStep record) = session.addStep record draft :=
  inFeature_of_draft hd

theorem handle_addExamples :
    session.handle (.addExamples record) = session.addExamples record draft :=
  inFeature_of_draft hd

end Open

/-- An event that opens nothing leaves the cursor, and what is under it gets the event. -/
theorem handle_of_not_opens (session : Session σ) {event : Event}
    (hf : event.opensFeature = false) (hc : event.opensContainer = false) :
    (session.handle event).session.cursor = session.cursor ∧
      (session.handle event).session.draft =
        session.draft.map (·.extend session.cursor [⟨session.path, event⟩]) := by
  -- What is neither a step nor examples adds nothing, wherever the cursor is.
  have hidle : ∀ e : Event, e.step? = none → e.block? = none →
      session.draft = session.draft.map (·.extend session.cursor [⟨session.path, e⟩]) := by
    intro e hs hb
    have hfun : FeatureDraft.extend session.cursor [⟨session.path, e⟩] = id :=
      funext fun draft => FeatureDraft.extend_idle (by simp [Arrival.step?, hs])
        (by simp [Arrival.block?, hb]) session.cursor draft
    rw [hfun, Option.map_id, id]
  cases event with
  | openFeature => exact Bool.noConfusion hf
  | openBackground | openScenario | openOutline => exact Bool.noConfusion hc
  | setPath | setLanguage | endOfDocument | syntaxError => exact ⟨rfl, hidle _ rfl rfl⟩
  | addStep record => exact draft_inFeature fun draft hd => addStep_eq_extend record hd
  | addExamples record => exact draft_inFeature fun draft hd => addExamples_eq_extend record hd

/-- The run form of `handle_of_not_opens`. The cursor stays, so the events add up below it. -/
theorem draft_run_of_not_opens {session : Session σ} {body : List Event}
    (hf : ∀ event ∈ body, event.opensFeature = false)
    (hc : ∀ event ∈ body, event.opensContainer = false) :
    (session.run (body.map Call.event)).draft =
      session.draft.map
        (·.extend session.cursor (arrivals session.settings.style session.path body)) := by
  induction body generalizing session with
  | nil =>
    have hfun : FeatureDraft.extend session.cursor [] = id :=
      funext (FeatureDraft.extend_idle rfl rfl session.cursor)
    rw [arrivals, hfun, Option.map_id]
    rfl
  | cons event body ih =>
    obtain ⟨hfe, hfs⟩ := List.forall_mem_cons.mp hf
    obtain ⟨hce, hcs⟩ := List.forall_mem_cons.mp hc
    obtain ⟨hcursor, hdraft⟩ := handle_of_not_opens session hfe hce
    rw [List.map_cons, run_cons]
    show ((session.handle event).session.run _).draft = _
    rw [ih hfs hcs, hcursor, hdraft, settings_handle, path_handle, Option.map_map]
    congr 1
    funext draft
    exact (draft.extend_append session.cursor [⟨session.path, event⟩] _).symm

end Session

/-! ## What a section makes -/

/-- The background of a section, if a background opens it. -/
def BackgroundDraft.ofSection? : Arrival × List Arrival → Option BackgroundDraft
  | (⟨file, .openBackground record⟩, body) =>
    some ⟨⟨file, record⟩, body.filterMap Arrival.step?⟩
  | _ => none

/-- The child of a section, if a scenario or an outline opens it. -/
def ChildDraft.ofSection? : Arrival × List Arrival → Option ChildDraft
  | (⟨file, .openScenario record⟩, body) =>
    some (.scenario ⟨file, record⟩ (body.filterMap Arrival.step?))
  | (⟨file, .openOutline record⟩, body) =>
    some (.outline ⟨file, record⟩ (body.filterMap Arrival.step?)
      ((body.filterMap Arrival.block?).map .ofPlaced))
  | _ => none

/-- The feature after one more section. The first background is kept. -/
def FeatureDraft.addSection (draft : FeatureDraft) (part : Arrival × List Arrival) :
    FeatureDraft :=
  { draft with
    background := draft.background.or (BackgroundDraft.ofSection? part)
    children := draft.children ++ (ChildDraft.ofSection? part).toList }

/-- The feature of a record and the events since it arrived. -/
def FeatureDraft.ofArrivals (placed : Placed) (list : List Arrival)
    (settled : Option Background := none) : FeatureDraft where
  placed := placed
  settled := settled
  background := (sections Arrival.opensContainer list).findSome? BackgroundDraft.ofSection?
  children := (sections Arrival.opensContainer list).filterMap ChildDraft.ofSection?

/-- A section makes a child or a background and never both. -/
theorem FeatureDraft.addSection_child {draft : FeatureDraft} {part : Arrival × List Arrival}
    {child : ChildDraft} (hc : ChildDraft.ofSection? part = some child)
    (hb : BackgroundDraft.ofSection? part = none) :
    draft.addSection part = { draft with children := draft.children ++ [child] } := by
  unfold addSection
  rw [hc, hb, Option.or_none]
  rfl

theorem FeatureDraft.addSection_background {draft : FeatureDraft}
    {part : Arrival × List Arrival} (hc : ChildDraft.ofSection? part = none) :
    draft.addSection part =
      { draft with background := draft.background.or (BackgroundDraft.ofSection? part) } := by
  unfold addSection
  rw [hc, Option.toList_none, List.append_nil]

/-- The draft of a history grows by its last section, in the way `draft_run_section` has a session
grow. -/
theorem FeatureDraft.ofArrivals_append_section {placed : Placed} {list body : List Arrival}
    (opening : Arrival) (ho : opening.opensContainer = true)
    (hbody : ∀ arrival ∈ body, arrival.opensContainer = false) :
    ofArrivals placed (list ++ opening :: body) =
      (ofArrivals placed list).addSection (opening, body) := by
  unfold ofArrivals addSection
  rw [sections_append_section ho hbody, List.findSome?_append, List.filterMap_append]
  rw [List.findSome?_singleton, List.filterMap_cons, List.filterMap_nil]
  cases ChildDraft.ofSection? (opening, body) <;> rfl

namespace Session

variable {σ : Type} [DiagnosticSink σ]

/-- What a run over one section does to an open feature, whatever was under the cursor before it. -/
theorem draft_run_section {session : Session σ} {draft : FeatureDraft} {opening : Event}
    (body : List Event) (hd : session.draft = some draft) (ho : opening.opensContainer = true)
    (hf : ∀ event ∈ body, event.opensFeature = false)
    (hc : ∀ event ∈ body, event.opensContainer = false) :
    (session.run ((opening :: body).map Call.event)).draft =
      some (draft.addSection
        (⟨session.path, opening⟩,
          arrivals session.settings.style (opening.fileAfter session.settings.style session.path)
            body)) := by
  rw [List.map_cons, run_cons]
  show ((session.handle opening).session.run (body.map Call.event)).draft = _
  rw [draft_run_of_not_opens hf hc, settings_handle, path_handle]
  -- Where the files of the body come from is of no matter from here on.
  generalize arrivals session.settings.style
    (opening.fileAfter session.settings.style session.path) body = body'
  cases opening with
  | openScenario record =>
    rw [handle_openScenario hd, openChild_extend, FeatureDraft.addSection_child rfl rfl]
    rfl
  | openOutline record =>
    rw [handle_openOutline hd, openChild_extend, FeatureDraft.addSection_child rfl rfl]
    rfl
  | openBackground record =>
    obtain ⟨placed, background, children, settled⟩ := draft
    rw [handle_openBackground hd, FeatureDraft.addSection_background rfl]
    cases background with
    | none => rfl
    | some background =>
      -- The cursor points at nothing from here on, so the body is lost with its opening.
      show session.draft.map (fun draft => draft) = _
      rw [hd]
      rfl
  | _ => exact Bool.noConfusion ho

/-- **The cursor does what the sections say.** From a feature that has just opened on, the draft is
that of the sections of the history. -/
theorem draft_run (session : Session σ) {placed : Placed} (hd : session.draft = some { placed })
    (hc : session.cursor = none) (list : List Event)
    (hf : ∀ event ∈ list, event.opensFeature = false) :
    (session.run (list.map Call.event)).draft =
      some (.ofArrivals placed (arrivals session.settings.style session.path list)) := by
  -- The cursor is known after each section, and not in the middle of one.
  induction list using sections_induction Event.opensContainer with
  | preamble body hbody =>
    have hnone : ∀ arrival ∈ arrivals session.settings.style session.path body,
        arrival.opensContainer = false :=
      fun arrival ha => hbody _ (event_mem_of_mem_arrivals ha)
    rw [draft_run_of_not_opens hf hbody, hd, hc]
    unfold FeatureDraft.ofArrivals
    rw [sections_eq_nil hnone]
    rfl
  | addSection front opening body ho hbody ih =>
    obtain ⟨hfront, hrest⟩ := List.forall_mem_append.mp hf
    obtain ⟨-, hfbody⟩ := List.forall_mem_cons.mp hrest
    rw [List.map_append, run_append, draft_run_section body (ih hfront) ho hfbody hbody,
      settings_run, path_run, events_map_event, arrivals_append, arrivals,
      FeatureDraft.ofArrivals_append_section ⟨_, opening⟩ ho
        fun arrival ha => hbody _ (event_mem_of_mem_arrivals ha)]

/-- What a session holds of the feature that was opened last. The questions in between show in
what is settled, and nowhere else. -/
theorem draft_run_openFeature (session : Session σ) (record : Record) {after : List Call}
    (h : OpensNoFeature after) :
    ∃ settled, (session.run (.event (.openFeature record) :: after)).draft =
      some (.ofArrivals ⟨session.path, record⟩
        (arrivals session.settings.style session.path (events after)) settled) := by
  let opened := (session.handle (.openFeature record)).session
  -- Without the questions it is a run over events alone, which is what `draft_run` is about.
  have hrun : (opened.run after).draft.map FeatureDraft.unsettled =
      some (.ofArrivals ⟨session.path, record⟩
        (arrivals session.settings.style session.path (events after))) := by
    rw [← unsettled_draft, run_unsettled]
    exact draft_run opened rfl rfl (events after) (opensNoFeature_iff.mp h)
  obtain ⟨draft, hd, hdraft⟩ := Option.map_eq_some_iff.mp hrun
  refine ⟨draft.settled, hd.trans ?_⟩
  exact congrArg (fun d : FeatureDraft => some { d with settled := draft.settled }) hdraft

end Session

end FeatureTree
