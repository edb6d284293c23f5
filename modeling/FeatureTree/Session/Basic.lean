import FeatureTree.Path
import FeatureTree.Session.Draft
import FeatureTree.Session.Event

/-!
# Sessions

A session takes events and keeps the draft of the feature that was opened last. Steps and examples
go to whatever was opened last in that feature; the session's cursor says what that is. **An event
that finds no place for its record is dropped with one warning, and changes nothing of the draft.**

At any time the session can be asked for its result, the tree of what has arrived so far. A language
must have been set by then, at whatever point of the session: the tree is in the language that was
set last.
-/

set_option autoImplicit false

namespace FeatureTree

/-- Why there is no answer to the question for a result. -/
inductive BuildError where
  | languageNotSet
deriving DecidableEq, Repr

def BuildError.message : BuildError → String
  | languageNotSet => "language has not been set"

/-- What takes the steps and examples that arrive. -/
inductive Cursor where
  | background
  | child (index : Nat)
deriving DecidableEq, Repr

/-- A session, whose syntax errors go to a sink of type `σ`. -/
structure Session (σ : Type) where
  settings : Settings
  /-- The path in effect, in the style of the settings. -/
  path : String
  language : Option Language := none
  draft : Option FeatureDraft := none
  cursor : Option Cursor := none
  sink : σ

/-- A session after an event, and what there is to say about it. -/
structure Reaction (σ : Type) where
  session : Session σ
  notices : List Notice := []

namespace Session

variable {σ : Type}

def start (settings : Settings) (sink : σ) : Session σ where
  settings := settings
  path := settings.initialPath
  sink := sink

def place (session : Session σ) (record : Record) : Placed :=
  ⟨session.path, record⟩

/-! ## Taking events -/

def drop (session : Session σ) (notice : Notice) : Reaction σ :=
  { session, notices := [notice] }

/-- The reaction to an event that belongs in a feature: what becomes of it in the open one, or else
that it came too early. -/
def inFeature (session : Session σ) (event : Event) (line : Nat)
    (react : FeatureDraft → Reaction σ) : Reaction σ :=
  match session.draft with
  | none => session.drop (.beforeFeature event.name line)
  | some draft => react draft

/-- A new child of the open feature, which takes what arrives from here on. -/
def openChild (session : Session σ) (child : ChildDraft) (draft : FeatureDraft) : Reaction σ where
  session :=
    { session with
      draft := some { draft with children := draft.children ++ [child] }
      cursor := some (.child draft.children.length) }

/-- The background of the open feature, unless it has one. A background too many is dropped with all
that follows up to the next child. -/
def openBackground (session : Session σ) (record : Record) (draft : FeatureDraft) : Reaction σ :=
  match draft.background with
  | some _ => { session with cursor := none }.drop (.secondBackground record.line)
  | none =>
    { session :=
        { session with
          draft := some { draft with background := some { placed := session.place record } }
          cursor := some .background } }

def addStep (session : Session σ) (record : Record) (draft : FeatureDraft) : Reaction σ :=
  let step := session.place record
  match session.cursor with
  | none => session.drop (.stepWithoutContainer record.line)
  | some .background =>
    match draft.background with
    | none => session.drop (.stepWithoutBackground record.line)
    | some background =>
      { session :=
          { session with draft := some { draft with background := background.addStep step } } }
  | some (.child index) =>
    match draft.children[index]? with
    | none => session.drop (.stepWithoutContainer record.line)
    | some child =>
      { session :=
          { session with
            draft := some { draft with children := draft.children.set index (child.addStep step) } } }

def addExamples [PatternEngine] (session : Session σ) (record : Record) (draft : FeatureDraft) :
    Reaction σ :=
  let block := session.place record
  match session.cursor with
  | some (.child index) =>
    match draft.children[index]? with
    | some (.outline placed steps tables) =>
      let child := .outline placed steps (tables ++ [.ofPlaced block])
      { session :=
          { session with
            draft := some { draft with children := draft.children.set index child } }
        notices := ExamplesTable.notices block }
    | _ => session.drop (.examplesWithoutOutline record.line)
  | _ => session.drop (.examplesWithoutOutline record.line)

def handle [PatternEngine] [DiagnosticSink σ] (session : Session σ) (event : Event) : Reaction σ :=
  match event with
  | .setPath path => { session := { session with path := session.settings.style.apply path } }
  | .setLanguage code =>
    { session := { session with language := some ⟨code⟩ }
      notices := session.language.toList.map fun previous => .languageChanged previous.code code }
  | .openFeature record =>
    { session := { session with draft := some { placed := session.place record }, cursor := none }
      notices :=
        .featureOpened (Text.trimStart record.name) session.path ::
          session.draft.toList.map fun _ => .secondFeature record.line }
  | .openBackground record =>
    session.inFeature event record.line (session.openBackground record)
  | .openScenario record =>
    session.inFeature event record.line (session.openChild (.scenario (session.place record) []))
  | .openOutline record =>
    session.inFeature event record.line
      (session.openChild (.outline (session.place record) [] []))
  | .addExamples record => session.inFeature event record.line (session.addExamples record)
  | .addStep record => session.inFeature event record.line (session.addStep record)
  | .endOfDocument => { session, notices := [.documentEnded session.path] }
  | .syntaxError error =>
    { session := { session with sink := DiagnosticSink.receive session.sink error }
      notices := [.rejected session.path error] }

/-! ## Asking for the result -/

/-- The tree of what has arrived so far; `none` if no feature was opened. -/
def result (session : Session σ) : Except BuildError (Option Feature) :=
  match session.language with
  | none => .error .languageNotSet
  | some language => .ok (session.draft.map (·.finish language))

/-- The session after it has been asked for its result, and what there is to say about that. -/
def settle (session : Session σ) : Reaction σ :=
  match session.language, session.draft with
  | some language, some draft =>
    { session := { session with draft := some (draft.settle language) }
      notices := [.finished (Text.trimStart draft.placed.record.name) draft.children.length] }
  | _, _ => { session }

end Session
end FeatureTree
