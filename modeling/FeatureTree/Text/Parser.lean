/-!
# Parsers with ordered choice

A parser reads a value off the text at a position. **Choices are ordered and final:** `p <|> q` tries
`q` only where `p` reads nothing, and a repetition takes as much as it can and never gives back.

Not every failure leaves another choice. A parser that finds the text beyond repair answers `broken`,
and that is the answer of every parser around it.

Positions know how much text is left, and that is why repetitions end: a turn of a repetition that
reads nothing is its last.
-/

set_option autoImplicit false

namespace FeatureTree
namespace Text

structure Position where
  rest : List Char
  line : Nat
  left : Nat
  left_eq_length : left = rest.length

def Position.start (cs : List Char) : Position :=
  ⟨cs, 1, cs.length, rfl⟩

/-- What becomes of an attempt to read a value. -/
inductive Attempt (α : Type) where
  | found (value : α) (after : Position)
  | missing
  /-- The text as a whole cannot be read. -/
  | broken

/-- Reads a value of type `α`. -/
def Parser (α : Type) := Position → Attempt α

namespace Parser

variable {α β : Type}

instance : Monad Parser where
  pure a := fun here => .found a here
  bind p f := fun here =>
    match p here with
    | .found a there => f a there
    | .missing => .missing
    | .broken => .broken

instance : OrElse (Parser α) where
  orElse p q := fun here =>
    match p here with
    | .missing => q () here
    | answer => answer

/-! ## Single characters -/

def missing : Parser α := fun _ => .missing

def broken : Parser α := fun _ => .broken

def currentLine : Parser Nat := fun here => .found here.line here

def anyChar : Parser Char := fun here =>
  match h : here.rest with
  | [] => .missing
  | c :: cs =>
    .found c
      { rest := cs
        line := if c = '\n' then here.line + 1 else here.line
        left := here.left - 1
        left_eq_length := by rw [here.left_eq_length, h]; rfl }

def charWhere (p : Char → Bool) : Parser Char := do
  let c ← anyChar
  if p c then return c else missing

def char (c : Char) : Parser Unit := do
  let _ ← charWhere (· == c)

def word : List Char → Parser Unit
  | [] => return
  | c :: cs => do
    char c
    word cs

/-- The first of the given words that the text goes on with. -/
def oneOf : List String → Parser String
  | [] => missing
  | w :: ws => (do word w.toList; return w) <|> oneOf ws

/-! ## Choice and repetition -/

def optional (p : Parser α) : Parser (Option α) :=
  (do return some (← p)) <|> pure none

/-- Reads nothing, and fails where `p` would read something. -/
def notAhead (p : Parser α) : Parser Unit := fun here =>
  match p here with
  | .found .. => .missing
  | .missing => .found () here
  | .broken => .broken

/-- The end of the text. -/
def ending : Parser Unit :=
  notAhead anyChar

/-- As many values as can be read one after the other. -/
def many (p : Parser α) : Parser (List α) :=
  go []
where
  /-- The same, behind the values read so far, the last one first. -/
  go (values : List α) (here : Position) : Attempt (List α) :=
    match p here with
    | .found a there =>
      if there.left < here.left then go (a :: values) there
      else .found values.reverse here
    | .missing => .found values.reverse here
    | .broken => .broken
  termination_by here.left

/-- As many values as can be read one after the other, but at least one. -/
def many1 (p : Parser α) : Parser (List α) := do
  let first ← p
  let others ← many p
  return first :: others

/-- As many values as can be read with `separator` between them, but at least one. -/
def sepBy1 (p : Parser α) (separator : Parser β) : Parser (List α) := do
  let first ← p
  let others ← many do
    let _ ← separator
    p
  return first :: others

/-- As many values as can be read with `separator` between them. -/
def sepBy (p : Parser α) (separator : Parser β) : Parser (List α) :=
  sepBy1 p separator <|> pure []

/-- As many turns of `p` as can be read; their values do not matter. -/
def skipMany (p : Parser α) : Parser Unit := do
  let _ ← many p

def sourceOf (p : Parser α) : Parser (List Char) := fun here =>
  match p here with
  | .found _ there => .found (here.rest.take (here.left - there.left)) there
  | .missing => .missing
  | .broken => .broken

/-! ## Whole texts -/

def parse? (p : Parser α) (cs : List Char) : Option α :=
  match p (.start cs) with
  | .found a there => if there.left = 0 then some a else none
  | .missing | .broken => none

end Parser
end Text
end FeatureTree
