import FeatureTree.Proofs.Repeats
import FeatureTree.Proofs.Scanning
import FeatureTree.Table.Row
import Mathlib.Data.List.Basic

/-!
# Which token is read

Several tokens of a header may start at one place of a text, as `<a>` and `<a>b>` do in `<a>b>`.
**The matcher reads a token wherever one starts, and of several the longest.** That it does so is
hidden in the order in which it tries the names: longer names come first, where longer means more
bytes. Tokens that one text starts with are prefixes of each other, and a proper prefix has fewer
bytes as it has fewer characters.

All this is about the matcher of all columns. Whether its pattern is taken by the engine at hand is
another question, and the answer leaves two cases: the matcher as it is, or the one without tokens.
-/

set_option autoImplicit false

namespace FeatureTree

/-! ## Words -/

namespace Text

variable {α : Type} {word cs : List Char} {word_ne_nil : word ≠ []} {value : α}

theorem readWord?_eq_none_iff : readWord? word word_ne_nil value cs = none ↔ ¬ word <+: cs := by
  constructor
  · rintro h ⟨rest, hrest⟩
    have hsome := List.isPrefixOf?_eq_some_iff_append_eq.mpr hrest
    unfold readWord? at h
    split at h
    · next hnone => exact nomatch hnone.symm.trans hsome
    · exact nomatch h
  · intro h
    unfold readWord?
    split
    · rfl
    · next rest hsome => exact absurd ⟨rest, append_of_isPrefixOf? hsome⟩ h

theorem of_readWord?_eq_some {t : Token α cs} (h : readWord? word word_ne_nil value cs = some t) :
    t.value = value ∧ t.source = word := by
  unfold readWord? at h
  split at h
  · exact nomatch h
  · obtain rfl := Option.some.inj h
    exact ⟨rfl, rfl⟩

end Text

namespace Matcher

/-! ## The token at the start of a text -/

/-- No column has its token at the start of the text. -/
def NoToken (columns : List String) (cs : List Char) : Prop :=
  ∀ name ∈ columns, ¬ token name <+: cs

/-- The column has its token at the start of the text, and no column has a longer one there. -/
structure IsLongest (columns : List String) (name : String) (cs : List Char) : Prop where
  mem : name ∈ columns
  starts : token name <+: cs
  longest : ∀ other ∈ columns, token other <+: cs → (token other).length ≤ (token name).length

variable {columns : List String} {name other : String} {cs : List Char}

/-- Tokens of one length that start one text are one token, and a token tells its column. -/
theorem IsLongest.unique (h : IsLongest columns name cs) (h' : IsLongest columns other cs) :
    name = other := by
  have hle := h'.longest name h.mem h.starts
  have hge := h.longest other h'.mem h'.starts
  have hshort := List.prefix_of_prefix_length_le h.starts h'.starts hle
  exact token_inj (hshort.eq_of_length (Nat.le_antisymm hle hge))

theorem IsLongest.not_noToken (h : IsLongest columns name cs) : ¬ NoToken columns cs :=
  fun hnone => hnone name h.mem h.starts

/-! ## Bytes and characters -/

/-- If the token of one column starts with that of another, the names are equal or the first has
more bytes. -/
theorem eq_or_lt_of_token_isPrefix (h : token name <+: token other) :
    name = other ∨ name.utf8ByteSize < other.utf8ByteSize := by
  obtain ⟨rest, hrest⟩ := h
  -- Either the tokens are of one length, or the longer name has the shorter and its closing bracket
  -- inside.
  rcases List.eq_nil_or_concat rest with rfl | ⟨init, c, rfl⟩
  · exact .inl (token_inj ((List.append_nil _).symm.trans hrest))
  · simp only [token, List.concat_eq_append, List.cons_append, List.cons.injEq, true_and,
      ← List.append_assoc] at hrest
    have hname : name.toList ++ '>' :: init = other.toList := by
      simpa using (List.append_inj' hrest rfl).1
    have hother : other = name ++ String.ofList ('>' :: init) := by
      rw [← String.toList_inj, String.toList_append, String.toList_ofList, hname]
    have hpos : (String.ofList ('>' :: init)).utf8ByteSize ≠ 0 := by
      simp [String.utf8ByteSize_eq_zero_iff, ← String.toList_inj]
    right
    rw [hother, String.utf8ByteSize_append]
    omega

/-- The matcher compares bytes of names and the text characters of tokens. For tokens that start one
text these come to the same. -/
theorem length_token_le_of_utf8ByteSize_le (hname : token name <+: cs) (hother : token other <+: cs)
    (hle : other.utf8ByteSize ≤ name.utf8ByteSize) :
    (token other).length ≤ (token name).length := by
  rcases List.prefix_or_prefix_of_prefix hname hother with h | h
  · rcases eq_or_lt_of_token_isPrefix h with rfl | hlt
    · exact Nat.le_refl _
    · omega
  · exact h.length_le

/-! ## The order of trying -/

/-- The order of trying is transitive and total, so that sorting by it is sound: more bytes go
first, and the alphabet decides between equals. -/
theorem triedBefore_trans (a b c : String) (hab : triedBefore a b) (hbc : triedBefore b c) :
    triedBefore a c := by
  simp only [triedBefore, Bool.or_eq_true, Bool.and_eq_true, decide_eq_true_eq, beq_iff_eq] at *
  rcases hab with hab | ⟨hab, hab'⟩ <;> rcases hbc with hbc | ⟨hbc, hbc'⟩
  · exact .inl (by omega)
  · exact .inl (by omega)
  · exact .inl (by omega)
  · exact .inr ⟨hab.trans hbc, String.le_trans hab' hbc'⟩

theorem triedBefore_total (a b : String) : triedBefore a b || triedBefore b a := by
  simp only [triedBefore, Bool.or_eq_true, Bool.and_eq_true, decide_eq_true_eq, beq_iff_eq]
  rcases Nat.lt_trichotomy a.utf8ByteSize b.utf8ByteSize with h | h | h
  · exact .inr (.inl h)
  · exact (String.le_total a b).imp (fun hle => .inr ⟨h, hle⟩) (fun hle => .inr ⟨h.symm, hle⟩)
  · exact .inl (.inl h)

/-- The matcher has the names of the columns, sorted and without repeats. -/
theorem mem_names_ofNames : name ∈ (ofNames columns).names ↔ name ∈ columns := by
  unfold ofNames
  rw [List.mem_mergeSort, List.mem_eraseDups]

theorem names_ofNames_nodup (columns : List String) : (ofNames columns).names.Nodup :=
  (List.mergeSort_perm _ _).nodup_iff.mpr (nodup_eraseDups columns)

/-- Of what the order says, reading needs this part: no name has more bytes than one before it. -/
theorem pairwise_names_ofNames (columns : List String) :
    (ofNames columns).names.Pairwise fun a b => b.utf8ByteSize ≤ a.utf8ByteSize := by
  refine (List.pairwise_mergeSort triedBefore_trans triedBefore_total _).imp ?_
  intro a b h
  simp only [triedBefore, Bool.or_eq_true, Bool.and_eq_true, decide_eq_true_eq, beq_iff_eq] at h
  omega

/-! ## What is read -/

theorem read?_eq_none_iff : (ofNames columns).read? cs = none ↔ NoToken columns cs := by
  unfold read?
  simp only [List.findSome?_eq_none_iff, Text.readWord?_eq_none_iff, mem_names_ofNames]
  rfl

/-- What is read is the longest token at that place. -/
theorem isLongest_of_read? {t : Text.Token String cs}
    (h : (ofNames columns).read? cs = some t) :
    t.source = token t.value ∧ IsLongest columns t.value cs := by
  obtain ⟨tried, name, untried, hnames, hread, htried⟩ := List.findSome?_eq_some_iff.mp h
  obtain ⟨hvalue, hsource⟩ := Text.of_readWord?_eq_some hread
  have hstarts : token name <+: cs := ⟨t.rest, hsource ▸ t.source_append_rest⟩
  have hmem : name ∈ columns := by
    rw [← mem_names_ofNames, hnames]
    exact List.mem_append_right _ List.mem_cons_self
  have hbytes := pairwise_names_ofNames columns
  rw [hnames, List.pairwise_append, List.pairwise_cons] at hbytes
  rw [hvalue]
  refine ⟨hsource, hmem, hstarts, ?_⟩
  intro other hother hstarts'
  -- What was tried before does not start the text, and what comes later has no more bytes.
  rw [← mem_names_ofNames, hnames, List.mem_append, List.mem_cons] at hother
  rcases hother with hother | rfl | hother
  · exact absurd hstarts' (Text.readWord?_eq_none_iff.mp (htried other hother))
  · exact Nat.le_refl _
  · exact length_token_le_of_utf8ByteSize_le hstarts hstarts' (hbytes.2.1.1 other hother)

/-! ## What is substituted -/

/-- The case without tokens is no exception: there a scan finds nothing but characters. -/
theorem substitute_eq (matcher : Matcher) (value? : String → Option String) (text : String) :
    matcher.substitute value? text =
      String.ofList ((Text.scan matcher.read? text.toList).flatMap
        (·.replace fun name => (value? name).map String.toList)) := by
  unfold substitute
  split
  · next hnames =>
    -- Without names there is no token to read, and a scan takes the text apart into characters.
    have hnone : ∀ cs, matcher.read? cs = none := by
      intro cs
      rw [read?, List.isEmpty_iff.mp hnames, List.findSome?_nil]
    rw [Text.scan_of_reads_nothing hnone, List.flatMap_map]
    exact String.ofList_toList.symm.trans (congrArg String.ofList (List.flatMap_singleton' _).symm)
  · rfl

/-- The matcher without tokens leaves every text as it is, whatever the values are. -/
theorem substitute_empty (value? : String → Option String) (text : String) :
    empty.substitute value? text = text :=
  rfl

/-! ## What is compiled -/

section Compiling

variable [PatternEngine] {matcher : Matcher}

theorem compile_of_compiles (h : matcher.compiles = true) : matcher.compile = matcher :=
  if_pos h

theorem compile_of_refused (h : matcher.compiles = false) : matcher.compile = empty :=
  if_neg (ne_true_of_eq_false h)

/-- What holds of a matcher and of the one without tokens holds of what compiling leaves. -/
theorem compile_induction {motive : Matcher → Prop} (matcher : Matcher) (as_it_is : motive matcher)
    (without_tokens : motive empty) : motive matcher.compile := by
  cases h : matcher.compiles with
  | true => exact (compile_of_compiles h).symm ▸ as_it_is
  | false => exact (compile_of_refused h).symm ▸ without_tokens

end Compiling
end Matcher

/-! ## Headers -/

namespace Header

variable [PatternEngine] {header : Header}

theorem matcher_of_compiles (h : header.compiles = true) :
    header.matcher = .ofNames header.cells :=
  Matcher.compile_of_compiles h

theorem matcher_of_refused (h : header.compiles = false) : header.matcher = .empty :=
  Matcher.compile_of_refused h

/-- A row of a header that compiles substitutes the tokens of all columns, those without a cell by
themselves. -/
theorem expand_row_of_compiles (h : header.compiles = true) (cells : List String)
    (location : Location) (text : String) :
    (header.row cells location).expand text =
      (Matcher.ofNames header.cells).substitute (header.row cells location).get? text := by
  rw [Row.expand, row, matcher_of_compiles h]

/-- A row of a header whose pattern was refused changes no text. -/
theorem expand_row_of_refused (h : header.compiles = false) (cells : List String)
    (location : Location) (text : String) : (header.row cells location).expand text = text := by
  rw [Row.expand, row, matcher_of_refused h]
  exact Matcher.substitute_empty _ text

end Header
end FeatureTree
