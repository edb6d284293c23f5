/-!
# Source records

A record is what a reader of feature files reports about one construct: a feature, a background, a
scenario, an outline, an examples block or a step. **All of them share this one shape, and fields
that do not apply are empty.** The tree is built from records and keeps each of them untouched, so
that nothing the reader said is lost to trimming or to default values.
-/

set_option autoImplicit false

namespace FeatureTree

/-- A tag as it was written, with or without its `@`. -/
structure RawTag where
  name : String
  line : Nat
deriving DecidableEq, Repr, Inhabited

structure RawComment where
  value : String
  line : Nat
deriving DecidableEq, Repr, Inhabited

structure RawDocString where
  content : String
  /-- What the opening delimiter says about the content, if it says anything. -/
  contentType : Option String
  /-- The line of the opening delimiter. -/
  line : Nat
deriving DecidableEq, Repr, Inhabited

structure RawRow where
  cells : List String
  line : Nat
deriving DecidableEq, Repr, Inhabited

/-- One construct of a feature file, as its reader reports it. A step carries a doc string or rows
but not both; an examples block carries rows, the first of them naming the columns. -/
structure Record where
  line : Nat
  tags : List RawTag := []
  comments : List RawComment := []
  /-- The keyword as written, any space behind it included. -/
  keyword : String
  name : String
  /-- The free text below the keyword's line. -/
  description : String := ""
  docString : Option RawDocString := none
  rows : List RawRow := []
deriving DecidableEq, Repr, Inhabited

namespace Record

def withTags (record : Record) (names : List String) (line : Nat) : Record :=
  { record with tags := record.tags ++ names.map (⟨·, line⟩) }

/-- The record with more comment lines, numbered upwards from the given line. -/
def withComments (record : Record) (values : List String) (line : Nat) : Record :=
  { record with comments := record.comments ++ (values.zipIdx line).map fun p => ⟨p.1, p.2⟩ }

def withDescription (record : Record) (description : String) : Record :=
  { record with description }

/-- The record with another doc string, one that says nothing about its content's type. -/
def withDocString (record : Record) (content : String) (line : Nat) : Record :=
  { record with docString := some ⟨content, none, line⟩ }

def withRows (record : Record) (rows : List RawRow) : Record :=
  { record with rows := record.rows ++ rows }

end Record
end FeatureTree
