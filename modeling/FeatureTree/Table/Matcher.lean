import FeatureTree.Text.Scan

/-!
# The matcher of an examples header

A header's column names decide what an outline's placeholders are: the column `a` is written `<a>`,
and any text is a column name, the empty text and texts with angle brackets among them. The matcher
of a header reads these tokens. **Where two tokens start at the same place the longer one is read,**
so that `<a>b>` means the column `a>b` if there is one, and the column `a` otherwise.

A matcher depends on the set of column names alone. It has one written form, the regular expression
that matches its tokens, and two matchers are equal when they are written alike.

The written form has to be compiled, and a pattern engine has a limit to the size of what it compiles.
A header whose pattern is over the limit is left without tokens: **its texts stay as they are.**
-/

set_option autoImplicit false

namespace FeatureTree

/-- What compiles patterns. A regular expression made of literal words has nothing in it that an
engine could object to, other than its size. -/
class PatternEngine where
  /-- The most bytes that a compiled pattern may take. -/
  sizeLimit : Nat
  /-- Whether the regular expression stays within the limit when it is compiled. -/
  accepts : List Char → Bool

/-- The tokens that an examples header stands for. -/
structure Matcher where
  /-- The distinct column names, in the order in which their tokens are tried. -/
  names : List String
deriving Repr, Inhabited

namespace Matcher

/-- The token of a column: its name in angle brackets. -/
def token (name : String) : List Char :=
  '<' :: (name.toList ++ ['>'])

theorem token_ne_nil (name : String) : token name ≠ [] :=
  List.cons_ne_nil _ _

/-- The order in which tokens are tried: longer names before shorter ones, names of one length by
their characters. Length is counted in bytes, which for two tokens that one text starts with gives
the same order as counting characters. -/
def triedBefore (a b : String) : Bool :=
  b.utf8ByteSize < a.utf8ByteSize || (a.utf8ByteSize == b.utf8ByteSize && a ≤ b)

/-- The matcher of the tokens of all columns. -/
def ofNames (names : List String) : Matcher :=
  ⟨names.eraseDups.mergeSort triedBefore⟩

/-- The matcher that knows no tokens. It is all there is where there are no columns, and where their
pattern is refused. -/
def empty : Matcher :=
  ⟨[]⟩

/-- Reads the token that a text starts with; what it means is the column's name. -/
def read? (matcher : Matcher) : Text.TokenReader String := fun cs =>
  matcher.names.findSome? fun name => Text.readWord? (token name) (token_ne_nil name) name cs

/-- The text with each token replaced by the value of its column, or left as it is where the column
has no value. Without tokens to look for the text is not looked at. -/
def substitute (matcher : Matcher) (value? : String → Option String) (text : String) : String :=
  if matcher.names.isEmpty then text
  else
    String.ofList
      ((Text.scan matcher.read? text.toList).flatMap
        (·.replace fun name => (value? name).map String.toList))

/-! ## The written form -/

/-- A character that a regular expression takes literally only behind a backslash. -/
def isSpecial (c : Char) : Bool :=
  ['\\', '.', '+', '*', '?', '(', ')', '|', '[', ']', '{', '}', '^', '$', '#', '&', '-', '~'].contains c

/-- The regular expression that matches the given characters and nothing else. -/
def escape (cs : List Char) : List Char :=
  cs.flatMap fun c => if isSpecial c then ['\\', c] else [c]

/-- The regular expression that matches one of the tokens, earlier ones first; there is none where
there are no tokens. -/
def pattern? (matcher : Matcher) : Option (List Char) :=
  if matcher.names.isEmpty then none
  else some (['|'].intercalate (matcher.names.map fun name => escape (token name)))

/-- Whether the engine takes the matcher's pattern; there is nothing to refuse where there is none. -/
def compiles [PatternEngine] (matcher : Matcher) : Bool :=
  matcher.pattern?.all PatternEngine.accepts

/-- What is left of a matcher when its pattern is given to the engine. -/
def compile [PatternEngine] (matcher : Matcher) : Matcher :=
  if matcher.compiles then matcher else empty

instance : BEq Matcher where
  beq a b := a.pattern? == b.pattern?

/-! ## The written form says it all

An escaped token holds no bar of its own that is not behind a backslash, so the bars between tokens
can be told from bars within them. -/

theorem escape_cons (c : Char) (cs : List Char) :
    escape (c :: cs) = (if isSpecial c then ['\\', c] else [c]) ++ escape cs := by
  simp [escape]

/-- What may follow an escaped token: nothing, or a bar. -/
def EndsToken (cs : List Char) : Prop :=
  cs = [] ∨ ∃ rest, cs = '|' :: rest

theorem not_endsToken_escape_cons {c : Char} {cs x : List Char} :
    ¬ EndsToken (escape (c :: cs) ++ x) := by
  rintro (h | ⟨rest, h⟩)
  · rw [escape_cons] at h
    split at h <;> simp at h
  · rw [escape_cons] at h
    split at h
    · simp at h
    · next hc =>
      simp only [List.cons_append, List.nil_append, List.cons.injEq] at h
      exact hc (by rw [h.1]; decide)

theorem escape_append_inj {a b x y : List Char} (hx : EndsToken x) (hy : EndsToken y)
    (h : escape a ++ x = escape b ++ y) : a = b ∧ x = y := by
  induction a generalizing b with
  | nil =>
    cases b with
    | nil => exact ⟨rfl, h⟩
    | cons d b =>
      have e : x = escape (d :: b) ++ y := h
      exact absurd (e ▸ hx) not_endsToken_escape_cons
  | cons c a ih =>
    cases b with
    | nil =>
      have e : escape (c :: a) ++ x = y := h
      exact absurd (e.symm ▸ hy) not_endsToken_escape_cons
    | cons d b =>
      have special : isSpecial '\\' = true := by decide
      rw [escape_cons, escape_cons] at h
      split at h <;> split at h <;>
        simp only [List.cons_append, List.nil_append, List.cons.injEq] at h
      · obtain ⟨rfl, hxy⟩ := ih h.2.2
        exact ⟨by rw [h.2.1], hxy⟩
      · next hd => exact absurd special (h.1 ▸ hd)
      · next hc _ => exact absurd special (h.1 ▸ hc)
      · obtain ⟨rfl, hxy⟩ := ih h.2
        exact ⟨by rw [h.1], hxy⟩

theorem token_inj {a b : String} (h : token a = token b) : a = b := by
  simp only [token, List.cons.injEq, true_and, List.append_cancel_right_eq] at h
  exact String.toList_inj.mp h

theorem alternatives_inj {ns ms : List String} (hn : ns ≠ []) (hm : ms ≠ [])
    (h : ['|'].intercalate (ns.map fun name => escape (token name)) =
      ['|'].intercalate (ms.map fun name => escape (token name))) : ns = ms := by
  -- One step: the first tokens agree, and so does what stands behind them.
  have step : ∀ (n : String) (ns : List String), ∃ x, EndsToken x ∧
      ['|'].intercalate ((n :: ns).map fun name => escape (token name)) = escape (token n) ++ x ∧
      (x = [] ↔ ns = []) ∧
      (ns ≠ [] → x = '|' :: ['|'].intercalate (ns.map fun name => escape (token name))) := by
    intro n ns
    cases ns with
    | nil => exact ⟨[], .inl rfl, by simp, by simp, by simp⟩
    | cons m ns =>
      exact ⟨'|' :: ['|'].intercalate ((m :: ns).map fun name => escape (token name)),
        .inr ⟨_, rfl⟩, by simp [List.intercalate_cons_cons], by simp, by simp⟩
  induction ns generalizing ms with
  | nil => exact absurd rfl hn
  | cons n ns ih =>
    cases ms with
    | nil => exact absurd rfl hm
    | cons m ms =>
      obtain ⟨x, hx, ex, nx, tx⟩ := step n ns
      obtain ⟨y, hy, ey, ny, ty⟩ := step m ms
      rw [ex, ey] at h
      obtain ⟨hnm, hxy⟩ := escape_append_inj hx hy h
      rw [token_inj hnm]
      congr 1
      by_cases hns : ns = []
      · rw [hns, eq_comm, ← ny, ← hxy, nx, hns]
      · have hms : ms ≠ [] := fun e => hns (nx.mp (hxy.trans (ny.mpr e)))
        refine ih hns hms ?_
        have := (tx hns).symm.trans (hxy.trans (ty hms))
        simpa using this

theorem pattern?_inj {a b : Matcher} (h : a.pattern? = b.pattern?) : a = b := by
  obtain ⟨ns⟩ := a
  obtain ⟨ms⟩ := b
  simp only [pattern?, List.isEmpty_iff] at h
  congr 1
  split at h <;> split at h
  · next hn hm => rw [hn, hm]
  · simp at h
  · simp at h
  · next hn hm => exact alternatives_inj hn hm (Option.some.inj h)

instance : LawfulBEq Matcher where
  rfl {a} := (beq_self_eq_true a.pattern?)
  eq_of_beq h := pattern?_inj (eq_of_beq h)

end Matcher

/-! ## A concrete engine -/

/-- The bytes that a text takes in UTF-8. -/
def Text.byteSize : List Char → Nat
  | [] => 0
  | c :: cs => c.utf8Size + byteSize cs

/-- The bytes of an expression that are left when it is read: a backslash goes with the character
behind it. -/
def Text.literalSize : List Char → Nat
  | [] => 0
  | '\\' :: c :: cs => c.utf8Size + literalSize cs
  | c :: cs => c.utf8Size + literalSize cs

/-- An engine that spends 32 bytes on each byte to match and on each bar, and stops at 10 MiB. -/
@[reducible]
def PatternEngine.sizeLimited : PatternEngine where
  sizeLimit := 10485760
  accepts pattern := 32 * Text.literalSize pattern ≤ 10485760

end FeatureTree
