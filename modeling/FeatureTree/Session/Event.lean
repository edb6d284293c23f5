import FeatureTree.Diagnostics
import FeatureTree.Record

/-!
# Events

A reader of feature files reports a document as a sequence of events. Most of them carry the record
of one construct. **No order is demanded:** a well-behaved reader opens the feature before anything
in it, but every sequence of events has its effect, and one that does not fit is dropped.
-/

set_option autoImplicit false

namespace FeatureTree

/-- What a reader reports. -/
inductive Event where
  /-- The file that the records from here on come from. -/
  | setPath (path : String)
  | setLanguage (code : String)
  | openFeature (record : Record)
  | openBackground (record : Record)
  | openScenario (record : Record)
  | openOutline (record : Record)
  /-- An examples block of the outline that was opened last. -/
  | addExamples (record : Record)
  | addStep (record : Record)
  | endOfDocument
  | syntaxError (error : SyntaxError)
deriving DecidableEq, Repr

namespace Event

def name : Event → String
  | setPath _ => "set_path"
  | setLanguage _ => "set_language"
  | openFeature _ => "open_feature"
  | openBackground _ => "open_background"
  | openScenario _ => "open_scenario"
  | openOutline _ => "open_scenario_outline"
  | addExamples _ => "add_examples"
  | addStep _ => "add_step"
  | endOfDocument => "end_of_document"
  | syntaxError _ => "syntax_error"

def record? : Event → Option Record
  | openFeature record | openBackground record | openScenario record | openOutline record
  | addExamples record | addStep record => some record
  | setPath _ | setLanguage _ | endOfDocument | syntaxError _ => none

end Event
end FeatureTree
