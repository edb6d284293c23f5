import FeatureTree.Text.Scan

/-!
# Placeholders

A step of a scenario outline may hold placeholders: **a name in angle brackets, where the name has
at least one character and holds no angle bracket itself.** `a < b` holds none, and of `<<a>>` the
placeholder is `<a>`.

This is the reader's notion of a placeholder and knows no columns. What an examples row replaces is
decided by the names of its columns, see `FeatureTree.Table.Matcher`.
-/

set_option autoImplicit false

namespace FeatureTree
namespace Placeholder

/-- A character that a placeholder's name may hold. -/
def isNameChar (c : Char) : Bool :=
  c != '<' && c != '>'

/-- Reads a placeholder; what it means is its name. -/
def read? : Text.TokenReader (List Char)
  | '<' :: cs =>
    match h : cs.dropWhile isNameChar with
    | '>' :: rest =>
      if cs.takeWhile isNameChar = [] then none
      else
        some
          { value := cs.takeWhile isNameChar
            source := '<' :: (cs.takeWhile isNameChar ++ ['>'])
            rest
            source_ne_nil := List.cons_ne_nil _ _
            source_append_rest := by
              rw [List.cons_append, List.append_assoc, List.singleton_append, ← h,
                List.takeWhile_append_dropWhile] }
    | _ => none
  | _ => none

/-- The names of the placeholders in a text, in their order and with repeats. -/
def names (text : String) : List String :=
  (Text.scan read? text.toList).filterMap fun piece => piece.value?.map String.ofList

def occursIn (text : String) : Bool :=
  (Text.scan read? text.toList).any fun piece => piece.value?.isSome

end Placeholder
end FeatureTree
