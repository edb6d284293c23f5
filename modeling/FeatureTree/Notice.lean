import FeatureTree.Diagnostics
import FeatureTree.Location

/-!
# Notices

Building a tree never fails over a single event. What is dropped, replaced or odd is said in a
notice, and so are the few landmarks of a session. **A warning is about the document:** something in
it is dropped or replaced, or a table in it does not add up. All other notices are there for
debugging.
-/

set_option autoImplicit false

namespace FeatureTree

inductive Level where
  | warn
  | debug
deriving DecidableEq, Repr

def Level.name : Level → String
  | warn => "WARN"
  | debug => "DEBUG"

/-- Something worth saying about a session. -/
inductive Notice where
  | beforeFeature (event : String) (line : Nat)
  | secondFeature (line : Nat)
  | secondBackground (line : Nat)
  /-- A step arrived for a background that is not there. -/
  | stepWithoutBackground (line : Nat)
  /-- A step arrived while there was nothing to take it. -/
  | stepWithoutContainer (line : Nat)
  | examplesWithoutOutline (line : Nat)
  | examplesWithoutHeader (location : Location)
  /-- The pattern of an examples header would take more bytes than the engine allows. -/
  | headerTooLarge (limit : Nat)
  /-- A row of examples has more or fewer cells than its header. -/
  | raggedRow (location : Location) (cells columns : Nat)
  /-- A rule has a background, which a feature tree has no place for. -/
  | ruleBackground (path rule : String) (line : Nat)
  | featureOpened (name path : String)
  | languageChanged (previous code : String)
  | documentEnded (path : String)
  | rejected (path : String) (error : SyntaxError)
  | finished (name : String) (children : Nat)
deriving DecidableEq, Repr

namespace Notice

def level : Notice → Level
  | featureOpened .. | languageChanged .. | documentEnded _ | rejected .. | finished .. => .debug
  | _ => .warn

def message : Notice → String
  | beforeFeature event line =>
    event ++ " at line " ++ toString line ++ " arrived before open_feature; dropped"
  | secondFeature line =>
    "second open_feature at line " ++ toString line ++ "; replacing the first"
  | secondBackground line => "second background at line " ++ toString line ++ "; dropped"
  | stepWithoutBackground line =>
    "step at line " ++ toString line ++ " has no open background; dropped"
  | stepWithoutContainer line =>
    "step at line " ++ toString line ++ " has no open container; dropped"
  | examplesWithoutOutline line =>
    "examples at line " ++ toString line ++ " have no open scenario outline; dropped"
  | examplesWithoutHeader location => "examples at " ++ location.render ++ " have no header row"
  | headerTooLarge limit =>
    "examples header cannot be compiled for expansion: Compiled regex exceeds size limit of " ++
      toString limit ++ " bytes."
  | raggedRow location cells columns =>
    "examples row at " ++ location.render ++ " has " ++ toString cells ++
      " cells but the header has " ++ toString columns
  | ruleBackground path rule line =>
    path ++ ": background of rule '" ++ rule ++ "' at line " ++ toString line ++ " is not replayed"
  | featureOpened name path => "opening feature '" ++ name ++ "' in " ++ path
  | languageChanged previous code =>
    "language changed from '" ++ previous ++ "' to '" ++ code ++ "'"
  | documentEnded path => "end of document " ++ path
  | rejected path error => "syntax error in " ++ path ++ ": " ++ error.message
  | finished name children =>
    "finalised feature '" ++ name ++ "' with " ++ toString children ++ " children"

def render (notice : Notice) : String :=
  notice.level.name ++ " " ++ notice.message

end Notice
end FeatureTree
