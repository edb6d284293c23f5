import FeatureTree.Proofs.Matching
import Mathlib.Algebra.GroupWithZero.Nat
import Mathlib.Algebra.Order.BigOperators.Group.List
import Mathlib.Algebra.Order.Group.Nat
import Mathlib.Data.List.Perm.Subperm

/-!
# Headers that are too large

Whether the pattern of a header is taken is for the engine to say, and most of what holds of rows
holds for every engine. The engine with a limit of 10 MiB decides by the size of the pattern, and
**that size can be told from the column names:** each distinct column adds its name, its brackets and
a bar, however much of it had to be escaped.

So the headers of ordinary tables compile, and a header with one column of half a million letters
does not.
-/

set_option autoImplicit false

namespace FeatureTree

/-! ## Sizes -/

namespace Text

theorem byteSize_append (first second : List Char) :
    byteSize (first ++ second) = byteSize first + byteSize second := by
  induction first with
  | nil => exact (Nat.zero_add _).symm
  | cons c first ih => rw [List.cons_append, byteSize, byteSize, ih, Nat.add_assoc]

theorem byteSize_replicate (n : Nat) (c : Char) :
    byteSize (List.replicate n c) = n * c.utf8Size := by
  induction n with
  | zero => exact (Nat.zero_mul _).symm
  | succ n ih => rw [List.replicate_succ, byteSize, ih, Nat.succ_mul, Nat.add_comm]

end Text

namespace Matcher

open Text (byteSize literalSize)

theorem byteSize_token (name : String) : byteSize (token name) = byteSize name.toList + 2 := by
  have hopen : '<'.utf8Size = 1 := rfl
  have hclose : byteSize ['>'] = 1 := rfl
  rw [token, byteSize, Text.byteSize_append, hopen, hclose]
  omega

/-- What is escaped is read as it was before. -/
theorem literalSize_escape_append (cs rest : List Char) :
    literalSize (escape cs ++ rest) = byteSize cs + literalSize rest := by
  induction cs with
  | nil => exact (Nat.zero_add _).symm
  | cons c cs ih =>
    rw [escape_cons, List.append_assoc, byteSize, Nat.add_assoc, ← ih]
    split
    · rfl
    · next hplain =>
      -- A character that needs no backslash is not one.
      have hne : c ≠ '\\' := by
        rintro rfl
        exact hplain (by decide)
      rw [List.singleton_append, literalSize]
      exact fun _ _ hc _ => hne hc

/-! ## The pattern of a header -/

variable {columns : List String} {pattern : List Char}

/-- What a column adds to a pattern: its name, two brackets and a bar. -/
def share (name : String) : Nat :=
  byteSize name.toList + 3

/-- Bars stand only between tokens, so there is one less than the shares allow for. -/
theorem literalSize_alternatives (name : String) (names : List String) :
    literalSize (['|'].intercalate ((name :: names).map fun name => escape (token name))) + 1 =
      ((name :: names).map share).sum := by
  have hshare : ∀ name, share name = byteSize (token name) + 1 := by
    intro name
    rw [byteSize_token, share]
  induction names generalizing name with
  | nil =>
    have htoken := literalSize_escape_append (token name) []
    rw [List.append_nil, literalSize, Nat.add_zero] at htoken
    rw [List.map_singleton, List.intercalate_singleton, htoken, List.map_singleton,
      List.sum_singleton, hshare]
  | cons next names ih =>
    have hbar : ∀ rest, literalSize ('|' :: rest) = 1 + literalSize rest := fun _ => rfl
    have hrest := ih next
    rw [List.map_cons] at hrest
    rw [List.map_cons, List.map_cons, List.intercalate_cons_cons, List.append_assoc,
      literalSize_escape_append, List.singleton_append, hbar, List.map_cons, List.sum_cons, ← hrest,
      hshare]
    omega

/-- The pattern of columns has the size that its distinct columns give it. -/
theorem literalSize_pattern (h : pattern ∈ (ofNames columns).pattern?) :
    literalSize pattern + 1 = ((ofNames columns).names.map share).sum := by
  unfold pattern? at h
  split at h
  · exact nomatch h
  · next hsome =>
    obtain ⟨name, names, hnames⟩ := List.exists_cons_of_ne_nil (mt List.isEmpty_iff.mpr hsome)
    obtain rfl := Option.some.inj h
    rw [hnames]
    exact literalSize_alternatives name names

/-- A matcher has each column once, so its shares are some of those of the columns. -/
theorem sum_share_names_le (columns : List String) :
    ((ofNames columns).names.map share).sum ≤ (columns.map share).sum := by
  have hsub : (ofNames columns).names ⊆ columns := fun _ => mem_names_ofNames.mp
  obtain ⟨kept, hperm, hkept⟩ := (names_ofNames_nodup columns).subperm hsub
  rw [← (hperm.map share).sum_nat]
  exact (hkept.map share).sum_le_sum fun _ _ => Nat.zero_le _

/-! ## Ordinary headers and one that is not -/

/-- Columns compile if they take no more than about 320 000 bytes together. -/
theorem compiles_of_share_le (h : 32 * (columns.map share).sum ≤ 10485760) :
    @compiles .sizeLimited (ofNames columns) = true := by
  unfold compiles
  cases hpattern : (ofNames columns).pattern? with
  | none => rfl
  | some pattern =>
    have hsize := literalSize_pattern hpattern
    have hshares := sum_share_names_le columns
    exact decide_eq_true (by omega)

/-- Columns do not compile if one of them takes more than 327 680 bytes. -/
theorem refused_of_lt {name : String} (hname : name ∈ columns)
    (h : 10485760 < 32 * byteSize name.toList) :
    @compiles .sizeLimited (ofNames columns) = false := by
  have hmem : name ∈ (ofNames columns).names := mem_names_ofNames.mpr hname
  have hone : share name ≤ ((ofNames columns).names.map share).sum :=
    List.single_le_sum (fun _ _ => Nat.zero_le _) _ (List.mem_map_of_mem hmem)
  unfold compiles
  cases hpattern : (ofNames columns).pattern? with
  | none =>
    unfold pattern? at hpattern
    rw [if_neg (mt List.isEmpty_iff.mp (List.ne_nil_of_mem hmem))] at hpattern
    exact nomatch hpattern
  | some pattern =>
    have hsize := literalSize_pattern hpattern
    rw [share] at hone
    exact decide_eq_false (by omega)

/-- The bound for names of one letter repeated, where the size is known without looking at the name.
-/
theorem refused_of_many_letters {n : Nat} (h : 10485760 < 32 * n) :
    @compiles .sizeLimited (ofNames [String.ofList (List.replicate n 'a')]) = false := by
  have hletter : 'a'.utf8Size = 1 := rfl
  refine refused_of_lt List.mem_cons_self ?_
  rw [String.toList_ofList, Text.byteSize_replicate, hletter]
  omega

end Matcher
end FeatureTree
