import FeatureTree.Text.Blank

/-!
# Paths and settings

A location names its file. How the separators in that name are written is a setting, **never a
property of the machine the library runs on**, so that a tree built from the same events is the
same tree everywhere.
-/

set_option autoImplicit false

namespace FeatureTree

/-- How path separators are written in locations. -/
inductive PathStyle where
  | asGiven
  | backslash
deriving DecidableEq, Repr, Inhabited

inductive SettingsError where
  | unknownPathStyle (name : String)
deriving DecidableEq, Repr

def SettingsError.message : SettingsError → String
  | unknownPathStyle name =>
    "unknown path style '" ++ name ++
      "', expected one of: as-given, forward, unix, backslash, windows"

namespace PathStyle

def name : PathStyle → String
  | asGiven => "as-given"
  | backslash => "backslash"

def apply : PathStyle → String → String
  | asGiven, path => path
  | backslash, path => String.ofList (path.toList.map fun c => if c = '/' then '\\' else c)

/-! ## Reading a style's name

Names are compared in lower case and without surrounding blanks. All of them are ASCII, so the one
thing to know about lower-casing the rest of Unicode is which characters become an ASCII letter:
only the Kelvin sign does. -/

/-- The ASCII letter that is the character's lower case; any other character stays as it is. -/
def lowerLetter (c : Char) : Char :=
  if c = '\u212A' then 'k' else c.toLower

/-- The style of the given name, in any case and with blanks around it. -/
def ofName (name : String) : Except SettingsError PathStyle :=
  match String.ofList ((Text.trim name).toList.map lowerLetter) with
  | "as-given" | "forward" | "unix" => .ok asGiven
  | "backslash" | "windows" => .ok backslash
  | _ => .error (.unknownPathStyle name)

/-- The style of the platform the library is built for, whose separator is `/`. -/
def native : PathStyle := asGiven

end PathStyle

structure Settings where
  style : PathStyle := .asGiven
  /-- The path of whatever arrives before the first path does. -/
  defaultPath : String := "UNKNOWN-FILE"
deriving DecidableEq, Repr, Inhabited

def Settings.initialPath (settings : Settings) : String :=
  settings.style.apply settings.defaultPath

end FeatureTree
