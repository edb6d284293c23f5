/-!
# Scanning text for tokens

A scan reads a text from left to right. **Where a token starts, the step is the whole token;
elsewhere it is one character.** A token is therefore never looked into, and the search goes on
behind it.

What a token is, the reader of tokens says: given the rest of the text it answers with a token's
meaning and what follows it. The answer carries the proof that something was read, which is all
that the scan needs in order to end.
-/

set_option autoImplicit false

namespace FeatureTree
namespace Text

/-- A token read off the start of a text. -/
structure Token (α : Type) (cs : List Char) where
  value : α
  source : List Char
  rest : List Char
  source_ne_nil : source ≠ []
  /-- The token and what is behind it are the whole text. -/
  source_append_rest : source ++ rest = cs

theorem Token.length_rest_lt {α : Type} {cs : List Char} (t : Token α cs) :
    t.rest.length < cs.length := by
  have split := congrArg List.length t.source_append_rest
  have nonempty := List.length_pos_iff.mpr t.source_ne_nil
  rw [List.length_append] at split
  omega

/-- Reads the token that a text starts with, if it starts with one. -/
abbrev TokenReader (α : Type) := (cs : List Char) → Option (Token α cs)

/-! ## Words -/

theorem append_of_isPrefixOf? {word cs rest : List Char} (h : word.isPrefixOf? cs = some rest) :
    word ++ rest = cs := by
  induction word generalizing cs with
  | nil => exact (Option.some.inj h).symm
  | cons c word ih =>
    cases cs with
    | nil => exact nomatch h
    | cons d cs =>
      change (if (c == d) = true then word.isPrefixOf? cs else none) = some rest at h
      by_cases hcd : (c == d) = true
      · rw [if_pos hcd] at h
        rw [List.cons_append, ih h, eq_of_beq hcd]
      · rw [if_neg hcd] at h
        exact nomatch h

/-- Reads one fixed word, which means `value`. -/
def readWord? {α : Type} (word : List Char) (word_ne_nil : word ≠ []) (value : α) : TokenReader α :=
  fun cs =>
    match h : word.isPrefixOf? cs with
    | none => none
    | some rest =>
      some
        { value, rest
          source := word
          source_ne_nil := word_ne_nil
          source_append_rest := append_of_isPrefixOf? h }

/-! ## The scan -/

/-- One step of a scan: a character that starts no token, or a token with its characters. -/
inductive Piece (α : Type) where
  | char (c : Char)
  | token (value : α) (source : List Char)
deriving DecidableEq, Repr

namespace Piece

variable {α : Type}

def source : Piece α → List Char
  | char c => [c]
  | token _ cs => cs

def value? : Piece α → Option α
  | char _ => none
  | token a _ => some a

/-- The piece's own characters, or what the meaning of the token is replaced by. -/
def replace (f : α → Option (List Char)) : Piece α → List Char
  | char c => [c]
  | token a cs => (f a).getD cs

end Piece

/-- The pieces of a text from left to right. -/
def scan {α : Type} (read? : TokenReader α) : List Char → List (Piece α)
  | [] => []
  | c :: cs =>
    match read? (c :: cs) with
    | some t => .token t.value t.source :: scan read? t.rest
    | none => .char c :: scan read? cs
termination_by cs => cs.length
decreasing_by
  · exact t.length_rest_lt
  · simp

/-- A scan loses nothing: put together, the pieces are the text. -/
theorem flatMap_source_scan {α : Type} (read? : TokenReader α) (cs : List Char) :
    (scan read? cs).flatMap Piece.source = cs := by
  fun_induction scan read? cs with
  | case1 => rfl
  | case2 c cs t h ih => simp only [List.flatMap_cons, Piece.source, ih, t.source_append_rest]
  | case3 c cs h ih => simp only [List.flatMap_cons, Piece.source, ih, List.singleton_append]

end Text
end FeatureTree
