import FeatureTree.Session.Run

/-!
# What a history says

A session forgets the calls it has seen and keeps four things besides the draft: its settings, the
path in effect, the language and the sink. **Each of these is read off the history without running
it:** the path is that of the last call that sets one, and so is the language, and events that carry
a record touch none of the four.

This file is the reading, and the proofs that sessions agree with it.
-/

set_option autoImplicit false

namespace FeatureTree

/-! ## Readings of one event -/

namespace Event

def path? : Event → Option String
  | setPath path => some path
  | _ => none

def code? : Event → Option String
  | setLanguage code => some code
  | _ => none

def opensFeature : Event → Bool
  | openFeature _ => true
  | _ => false

/-- Whether the event opens something that steps can be for. -/
def opensContainer : Event → Bool
  | openBackground _ | openScenario _ | openOutline _ => true
  | _ => false

def step? : Event → Option Record
  | addStep record => some record
  | _ => none

def block? : Event → Option Record
  | addExamples record => some record
  | _ => none

/-- The file in effect after an event, where `file` is the one before. -/
def fileAfter (style : PathStyle) (file : String) (event : Event) : String :=
  (event.path?.map style.apply).getD file

end Event

/-! ## Readings of a list of calls -/

def Call.event? : Call → Option Event
  | .event e => some e
  | .result => none

def events (calls : List Call) : List Event :=
  calls.filterMap Call.event?

/-- The languages that the calls set, in order. -/
def languages (calls : List Call) : List Language :=
  ((events calls).filterMap Event.code?).map Language.mk

/-- The file in effect after the calls, for a session that starts with them. -/
def Settings.fileAfter (settings : Settings) (calls : List Call) : String :=
  (events calls).foldl (Event.fileAfter settings.style) settings.initialPath

def SetsLanguage (calls : List Call) : Prop :=
  ∃ code, Call.event (.setLanguage code) ∈ calls

def OpensNoFeature (calls : List Call) : Prop :=
  ∀ record, Call.event (.openFeature record) ∉ calls

@[simp] theorem events_nil : events [] = [] := rfl

@[simp] theorem events_cons_event (event : Event) (calls : List Call) :
    events (.event event :: calls) = event :: events calls := rfl

@[simp] theorem events_cons_result (calls : List Call) :
    events (.result :: calls) = events calls := rfl

@[simp] theorem events_append (first second : List Call) :
    events (first ++ second) = events first ++ events second :=
  List.filterMap_append

@[simp] theorem events_map_event (list : List Event) : events (list.map Call.event) = list := by
  induction list with
  | nil => rfl
  | cons event list ih => rw [List.map_cons, events_cons_event, ih]

/-- One event adds one language or none. Proofs about languages go by induction on the calls through
this and the lemma below, and need not tell the kinds of events apart. -/
theorem languages_cons_event (event : Event) (calls : List Call) :
    languages (.event event :: calls) =
      (event.code?.map Language.mk).toList ++ languages calls := by
  unfold languages
  rw [events_cons_event, List.filterMap_cons]
  cases event.code? <;> rfl

theorem languages_cons_result (calls : List Call) :
    languages (.result :: calls) = languages calls := rfl

/-- The readings are lists of events while hypotheses speak of calls; this carries a membership from
one to the other. -/
theorem mem_events {event : Event} {calls : List Call} :
    event ∈ events calls ↔ Call.event event ∈ calls := by
  unfold events
  rw [List.mem_filterMap]
  constructor
  · rintro ⟨c, hc, he⟩
    cases c with
    | event e => exact Option.some.inj he ▸ hc
    | result => exact nomatch he
  · intro h
    exact ⟨_, h, rfl⟩

/-- The same condition on the events, as a test that `List` lemmas about filters and splits can use.
-/
theorem opensNoFeature_iff {calls : List Call} :
    OpensNoFeature calls ↔ ∀ event ∈ events calls, event.opensFeature = false := by
  constructor
  · intro h event he
    cases event with
    | openFeature record => exact absurd (mem_events.mp he) (h record)
    | _ => rfl
  · intro h record hmem
    exact Bool.noConfusion (h _ (mem_events.mpr hmem))

theorem OpensNoFeature.cons {c : Call} {calls : List Call} (h : OpensNoFeature (c :: calls)) :
    (∀ event, c = .event event → event.opensFeature = false) ∧ OpensNoFeature calls := by
  constructor
  · rintro event rfl
    exact opensNoFeature_iff.mp h event List.mem_cons_self
  · intro record hmem
    exact h record (List.mem_cons_of_mem c hmem)

/-- A language has been set exactly if there is a last one, so that `getLast?` of the languages
decides what `result` answers. -/
theorem setsLanguage_iff {calls : List Call} : SetsLanguage calls ↔ languages calls ≠ [] := by
  unfold languages
  rw [ne_eq, List.map_eq_nil_iff]
  constructor
  · rintro ⟨code, hmem⟩ hnone
    exact nomatch List.filterMap_eq_nil_iff.mp hnone _ (mem_events.mpr hmem)
  · intro h
    obtain ⟨code, hcode⟩ := List.exists_mem_of_ne_nil _ h
    obtain ⟨event, he, hevent⟩ := List.mem_filterMap.mp hcode
    cases event with
    | setLanguage code => exact ⟨code, mem_events.mp he⟩
    | _ => exact nomatch hevent

/-! ## What events leave alone -/

namespace Session

variable {σ : Type}

/-- The sessions differ at most in the open feature. -/
structure SameSurroundings (a b : Session σ) : Prop where
  settings : a.settings = b.settings
  path : a.path = b.path
  language : a.language = b.language
  sink : a.sink = b.sink

theorem SameSurroundings.refl (session : Session σ) : SameSurroundings session session :=
  ⟨rfl, rfl, rfl, rfl⟩

/-- The surroundings compose, which is what makes an induction over calls possible. -/
theorem SameSurroundings.trans {a b c : Session σ} (hab : SameSurroundings a b)
    (hbc : SameSurroundings b c) : SameSurroundings a c where
  settings := hab.settings.trans hbc.settings
  path := hab.path.trans hbc.path
  language := hab.language.trans hbc.language
  sink := hab.sink.trans hbc.sink

/-- The reactions differ in what they do to the draft and in what they log; each of them gives the
session back with other values for `draft` and `cursor` only. -/
theorem openBackground_surroundings (session : Session σ) (record : Record)
    (draft : FeatureDraft) :
    SameSurroundings (session.openBackground record draft).session session := by
  unfold openBackground
  split <;> exact ⟨rfl, rfl, rfl, rfl⟩

theorem addStep_surroundings (session : Session σ) (record : Record) (draft : FeatureDraft) :
    SameSurroundings (session.addStep record draft).session session := by
  -- A step without a cursor is only logged; both other branches differ in `draft` alone.
  unfold addStep
  split
  · exact .refl session
  · split <;> exact ⟨rfl, rfl, rfl, rfl⟩
  · split <;> exact ⟨rfl, rfl, rfl, rfl⟩

theorem addExamples_surroundings [PatternEngine] (session : Session σ) (record : Record)
    (draft : FeatureDraft) :
    SameSurroundings (session.addExamples record draft).session session := by
  unfold addExamples
  split
  · split <;> exact ⟨rfl, rfl, rfl, rfl⟩
  · exact .refl session

/-- What holds of a reaction holds of it behind the check for an open feature, where the alternative
is the session itself. -/
theorem inFeature_surroundings {session : Session σ} {event : Event} {line : Nat}
    {react : FeatureDraft → Reaction σ}
    (hreact : ∀ draft, SameSurroundings (react draft).session session) :
    SameSurroundings (session.inFeature event line react).session session := by
  unfold inFeature
  cases session.draft with
  | none => exact .refl session
  | some draft => exact hreact draft

/-- An answer settles the background of the draft and nothing around it. -/
theorem settle_surroundings (session : Session σ) :
    SameSurroundings session.settle.session session := by
  unfold settle
  split <;> exact ⟨rfl, rfl, rfl, rfl⟩

variable [PatternEngine] [DiagnosticSink σ]

/-- An event that carries a record is about the open feature alone. -/
theorem handle_surroundings {session : Session σ} {event : Event}
    (h : event.record?.isSome) : SameSurroundings (session.handle event).session session := by
  cases event with
  | setPath | setLanguage | endOfDocument | syntaxError => exact Bool.noConfusion h
  | openFeature => exact ⟨rfl, rfl, rfl, rfl⟩
  | openBackground r => exact inFeature_surroundings (session.openBackground_surroundings r)
  | openScenario | openOutline => exact inFeature_surroundings fun _ => ⟨rfl, rfl, rfl, rfl⟩
  | addExamples r => exact inFeature_surroundings (session.addExamples_surroundings r)
  | addStep r => exact inFeature_surroundings (session.addStep_surroundings r)

/-- The run form of `handle_surroundings`: a stretch of records happens under one path and one
language. -/
theorem run_surroundings (session : Session σ) {list : List Event}
    (h : ∀ event ∈ list, event.record?.isSome) :
    SameSurroundings (session.run (list.map Call.event)) session := by
  induction list generalizing session with
  | nil => exact .refl session
  | cons event list ih =>
    obtain ⟨hevent, hlist⟩ := List.forall_mem_cons.mp h
    exact (ih _ hlist).trans (handle_surroundings hevent)

theorem settings_handle (session : Session σ) (event : Event) :
    (session.handle event).session.settings = session.settings := by
  cases event with
  | setPath | setLanguage | endOfDocument | syntaxError => rfl
  | _ => exact (handle_surroundings rfl).settings

/-- The step that `path_run` repeats. Only `setPath` has a path to apply; for all others `fileAfter`
gives back the file it had. -/
theorem path_handle (session : Session σ) (event : Event) :
    (session.handle event).session.path = event.fileAfter session.settings.style session.path := by
  cases event with
  | setPath | setLanguage | endOfDocument | syntaxError => rfl
  | _ => exact (handle_surroundings rfl).path

/-- The step that `language_run` repeats, with `Option.or` for the language that was in effect
before. -/
theorem language_handle (session : Session σ) (event : Event) :
    (session.handle event).session.language =
      (event.code?.map Language.mk).or session.language := by
  cases event with
  | setPath | setLanguage | endOfDocument | syntaxError => rfl
  | _ => exact (handle_surroundings rfl).language

/-! ## What runs leave behind -/

/-- Settings are for good, so the style of paths can be read off the session a run starts from. -/
theorem settings_run (session : Session σ) (calls : List Call) :
    (session.run calls).settings = session.settings := by
  induction calls generalizing session with
  | nil => rfl
  | cons c calls ih =>
    rw [run_cons, ih]
    cases c with
    | event event => exact session.settings_handle event
    | result => exact session.settle_surroundings.settings

/-- The path behind a run is a fold of the readings alone, whatever the calls do to the draft. -/
theorem path_run (session : Session σ) (calls : List Call) :
    (session.run calls).path =
      (events calls).foldl (Event.fileAfter session.settings.style) session.path := by
  induction calls generalizing session with
  | nil => rfl
  | cons c calls ih =>
    rw [run_cons, ih]
    cases c with
    | event event =>
      show (events calls).foldl (Event.fileAfter (session.handle event).session.settings.style)
        (session.handle event).session.path = _
      -- The style is that of the session behind the event, which `settings_handle` takes back to
      -- the first.
      rw [path_handle, settings_handle, events_cons_event, List.foldl_cons]
    | result =>
      show (events calls).foldl (Event.fileAfter session.settle.session.settings.style)
        session.settle.session.path = _
      rw [session.settle_surroundings.path, session.settle_surroundings.settings,
        events_cons_result]

/-- The language behind a run is the last one set in it, or else the one in effect before. -/
theorem language_run (session : Session σ) (calls : List Call) :
    (session.run calls).language = (languages calls).getLast?.or session.language := by
  induction calls generalizing session with
  | nil => rfl
  | cons c calls ih =>
    rw [run_cons, ih]
    cases c with
    | event event =>
      show (languages calls).getLast?.or (session.handle event).session.language = _
      rw [language_handle, languages_cons_event]
      cases event.code? with
      | none => rfl
      | some code =>
        show (languages calls).getLast?.or (some ⟨code⟩) =
          (⟨code⟩ :: languages calls).getLast?.or session.language
        -- A later language wins over this one, and this one over what was in effect before.
        rw [List.getLast?_cons]
        cases (languages calls).getLast? <;> rfl
    | result =>
      show (languages calls).getLast?.or session.settle.session.language = _
      rw [session.settle_surroundings.language, languages_cons_result]

theorem language_run_start (settings : Settings) (sink : σ) (calls : List Call) :
    ((start settings sink).run calls).language = (languages calls).getLast? := by
  rw [language_run]
  exact Option.or_none

theorem path_run_start (settings : Settings) (sink : σ) (calls : List Call) :
    ((start settings sink).run calls).path = settings.fileAfter calls :=
  path_run ..

end Session
end FeatureTree
