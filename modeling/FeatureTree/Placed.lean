import FeatureTree.Comment
import FeatureTree.Record
import FeatureTree.Tag

/-!
# Records in a file

A record knows its lines and not its file. **The file is the one that was being read when the record
arrived,** and it is attached there and then: a later change of file moves nothing that is already
known.
-/

set_option autoImplicit false

namespace FeatureTree

/-- A record together with the file it was read from. -/
structure Placed where
  file : String
  record : Record
deriving DecidableEq, Repr, Inhabited

namespace Placed

def location (placed : Placed) : Location :=
  ⟨placed.file, placed.record.line⟩

def comment (placed : Placed) : Comment :=
  .ofLines (placed.record.comments.map RawComment.value)

def tags (placed : Placed) : TagSet :=
  .ofRaw placed.location placed.record.tags

end Placed
end FeatureTree
