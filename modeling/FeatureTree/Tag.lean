import FeatureTree.Text.Blank
import FeatureTree.Location
import FeatureTree.Record

/-!
# Tags

A tag may be written with or without its `@` and with blanks around it; **its name is the spelling
with the `@` and without the blanks.** A node owns an ordered set of tags: of several tags of one
name the first is kept, at the place where it was first written.
-/

set_option autoImplicit false

namespace FeatureTree

structure Tag where
  /-- The name, `@` included. -/
  name : String
  location : Location
deriving DecidableEq, Repr, Inhabited

namespace Tag

/-- The name that a spelling stands for. -/
def normalize (spelling : String) : String :=
  let trimmed := Text.trim spelling
  if trimmed.toList.head? = some '@' then trimmed else "@" ++ trimmed

def ofSpelling (spelling : String) (location : Location) : Tag :=
  ⟨normalize spelling, location⟩

end Tag

/-- The tags of one node, in the order written and without repeats. -/
structure TagSet where
  location : Location
  tags : List Tag
deriving DecidableEq, Repr, Inhabited

namespace TagSet

/-- The tags of the node at `location`: of each name the first. -/
def ofTags (location : Location) (tags : List Tag) : TagSet :=
  ⟨location, tags.eraseDupsBy fun a b => a.name == b.name⟩

def ofSpellings (location : Location) (spellings : List String) : TagSet :=
  ofTags location (spellings.map (Tag.ofSpelling · location))

/-- The tags of a record at `location`, each on the line the record gives it. -/
def ofRaw (location : Location) (raw : List RawTag) : TagSet :=
  ofTags location (raw.map fun tag => Tag.ofSpelling tag.name (location.onLine tag.line))

def names (set : TagSet) : List String :=
  set.tags.map Tag.name

def contains (set : TagSet) (spelling : String) : Bool :=
  set.names.contains (Tag.normalize spelling)

/-- The names of two tag sets: all of the first, then what the second adds. -/
def unionNames (first second : TagSet) : List String :=
  (first.names ++ second.names).eraseDups

end TagSet
end FeatureTree
