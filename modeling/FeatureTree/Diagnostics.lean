/-!
# Syntax errors and where they go

A reader that rejects part of a document says so and reads on. **What becomes of such a report is
the caller's choice and has no bearing on the tree:** the report is handed to a sink and otherwise
forgotten. There are three sinks, one that drops every report, one that keeps them all, and one
that hands them to a function of the caller's.
-/

set_option autoImplicit false

namespace FeatureTree

/-- A report that part of a document was rejected. -/
structure SyntaxError where
  /-- What the reader was in the middle of. -/
  readerState : String
  /-- What it met there. -/
  offending : String
  /-- What it would have accepted instead. -/
  legal : List String
  line : Nat
deriving DecidableEq, Repr, Inhabited

def SyntaxError.message (error : SyntaxError) : String :=
  "line " ++ toString error.line ++ ": unexpected " ++ error.offending ++ " in state " ++
    error.readerState ++ ", expected one of: " ++ ", ".intercalate error.legal

/-- A place that syntax errors are handed to. -/
class DiagnosticSink (σ : Type) where
  /-- The sink after one more error. -/
  receive : σ → SyntaxError → σ

structure IgnoreErrors where
deriving DecidableEq, Repr, Inhabited

instance : DiagnosticSink IgnoreErrors where
  receive sink _ := sink

structure CollectErrors where
  errors : List SyntaxError := []
deriving DecidableEq, Repr, Inhabited

instance : DiagnosticSink CollectErrors where
  receive sink error := ⟨sink.errors ++ [error]⟩

/-- The sink that hands every error to a function, together with whatever the function answered
the time before. -/
structure ForwardErrors (τ : Type) where
  onError : τ → SyntaxError → τ
  memory : τ

instance {τ : Type} : DiagnosticSink (ForwardErrors τ) where
  receive sink error := { sink with memory := sink.onError sink.memory error }

end FeatureTree
