/-!
# Comments

The comment lines above a node are kept as one text, joined by line feeds. **The text is all that
is kept:** a comment of one empty line and no comment at all are the same comment, and a line that
itself holds a line feed comes back as two.
-/

set_option autoImplicit false

namespace FeatureTree

/-- The comment lines above a node, joined; empty where there are none. -/
structure Comment where
  text : String
deriving DecidableEq, Repr

namespace Comment

def empty : Comment := ⟨""⟩

instance : Inhabited Comment := ⟨empty⟩

def ofLines (lines : List String) : Comment :=
  ⟨"\n".intercalate lines⟩

def lines (comment : Comment) : List String :=
  if comment.text.isEmpty then [] else (comment.text.toList.splitOn '\n').map String.ofList

def isEmpty (comment : Comment) : Bool :=
  comment.text.isEmpty

end Comment
end FeatureTree
