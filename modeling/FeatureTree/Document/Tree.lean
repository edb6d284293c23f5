import FeatureTree.Document.OfText
import FeatureTree.Document.Replay

/-!
# From text to tree

The whole way at once: a text is read as a document, the document is told to a fresh session, and
the session is asked for its result. The one thing that can go wrong is the reading.

Patterns are compiled by whatever engine is at hand, and by default by the one with a limit of
10 MiB.
-/

set_option autoImplicit false

namespace FeatureTree

/-- Why there is no tree for a text. -/
inductive SourceError where
  | unreadable
  | unbuilt (cause : BuildError)
deriving DecidableEq, Repr

def SourceError.message : SourceError → String
  | unreadable => "failed to parse feature source"
  | unbuilt cause => cause.message

/-- A fresh session that was told the document. -/
def Document.Feature.replayed [PatternEngine] (feature : Document.Feature) (settings : Settings)
    (path code : String) : Reaction IgnoreErrors :=
  feature.replay path code (Session.start settings {})

/-- The tree of an English feature file. -/
def Feature.ofText [PatternEngine] (settings : Settings) (path text : String) :
    Except SourceError (Option Feature) :=
  match Document.Feature.ofText? text with
  | none => .error .unreadable
  | some document =>
    match (document.replayed settings path "en").session.result with
    | .error cause => .error (.unbuilt cause)
    | .ok feature => .ok feature

instance (priority := low) : PatternEngine := .sizeLimited

end FeatureTree
