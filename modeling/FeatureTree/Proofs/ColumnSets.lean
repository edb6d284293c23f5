import FeatureTree.Proofs.Limits
import FeatureTree.Proofs.Substitution
import Mathlib.Data.List.Dedup
import Mathlib.Data.List.Destutter

/-!
# Headers with the same columns

Two headers may name the same columns in another order, or name one of them twice. **Their matchers
are equal all the same, and only then:** a matcher is written as its names in one fixed order, and
the written form can be taken apart again. Compiling keeps this up for headers that compile; two that
are refused have lost what made them different.

So what a row makes of a text is up to what it answers for each column, and to nothing else about
its cells. Columns that change places together with their cells, a column that stands there twice
and cells behind the last column do not show in an expanded text.
-/

set_option autoImplicit false

namespace FeatureTree

/-- The lists hold the same names, in whatever order and however often. -/
def SameNames (names others : List String) : Prop :=
  ∀ name, name ∈ names ↔ name ∈ others

theorem SameNames.append_of_subset {names repeated : List String}
    (h : ∀ name ∈ repeated, name ∈ names) : SameNames (names ++ repeated) names := by
  intro name
  rw [List.mem_append]
  exact or_iff_left_of_imp (h name)

namespace Matcher

variable {names others : List String}

/-! ## One order for each set of names -/

theorem triedBefore_antisymm {a b : String} (hab : triedBefore a b) (hba : triedBefore b a) :
    a = b := by
  simp only [triedBefore, Bool.or_eq_true, Bool.and_eq_true, decide_eq_true_eq,
    beq_iff_eq] at hab hba
  rcases hab with hab | ⟨hsize, hab⟩ <;> rcases hba with hba | ⟨hsize', hba⟩
  · omega
  · omega
  · omega
  · exact String.le_antisymm hab hba

theorem names_ofNames_pairwise (names : List String) :
    (ofNames names).names.Pairwise fun a b => triedBefore a b :=
  List.pairwise_mergeSort triedBefore_trans triedBefore_total _

/-- A list without repeats that is in the order of trying is the list that a matcher keeps. -/
theorem names_ofNames_eq (hsorted : others.Pairwise fun a b => triedBefore a b)
    (hnodup : others.Nodup) (hsame : SameNames names others) : (ofNames names).names = others := by
  -- Two lists of the same entries in one strict order are equal.
  refine List.Perm.eq_of_pairwise (fun a b _ _ => triedBefore_antisymm)
    (names_ofNames_pairwise names) hsorted ?_
  refine (List.perm_ext_iff_of_nodup (names_ofNames_nodup names) hnodup).mpr fun name => ?_
  exact mem_names_ofNames.trans (hsame name)

theorem ofNames_eq_iff : ofNames names = ofNames others ↔ SameNames names others := by
  constructor
  · intro h name
    rw [← mem_names_ofNames, h, mem_names_ofNames]
  · intro h
    refine congrArg Matcher.mk (names_ofNames_eq (names_ofNames_pairwise others)
      (names_ofNames_nodup others) fun name => ?_)
    exact (h name).trans mem_names_ofNames.symm

/-- Sorted first, the names have their repeats as neighbours, where they are as easily dropped. -/
theorem names_ofNames_eq_destutter (names : List String) :
    (ofNames names).names = (names.mergeSort triedBefore).destutter (· ≠ ·) := by
  have hantisymm : Std.Antisymm fun a b : String => triedBefore a b = true :=
    ⟨fun _ _ => triedBefore_antisymm⟩
  have hsorted := List.pairwise_mergeSort triedBefore_trans triedBefore_total names
  rw [hsorted.destutter_eq_dedup]
  refine names_ofNames_eq (hsorted.sublist (List.dedup_sublist _)) (List.nodup_dedup _) ?_
  intro name
  rw [List.mem_dedup, List.mem_mergeSort]

theorem pattern?_eq_iff :
    (ofNames names).pattern? = (ofNames others).pattern? ↔ SameNames names others :=
  ⟨fun h => ofNames_eq_iff.mp (pattern?_inj h), fun h => congrArg pattern? (ofNames_eq_iff.mpr h)⟩

theorem compile_ofNames_eq_iff [PatternEngine] (h : (ofNames names).compiles = true)
    (h' : (ofNames others).compiles = true) :
    (ofNames names).compile = (ofNames others).compile ↔ SameNames names others := by
  rw [compile_of_compiles h, compile_of_compiles h', ofNames_eq_iff]

end Matcher

/-! ## Rows -/

section Rows

variable {row row' : Row} {header header' : Header}

/-- No column has two values in the row. -/
def Row.SingleValued (row : Row) : Prop :=
  ∀ name value value', (name, value) ∈ row.data → (name, value') ∈ row.data → value = value'

theorem Row.mem_data_of_get? {name value : String} (h : row.get? name = some value) :
    (name, value) ∈ row.data := by
  obtain ⟨front, back, hdata, -⟩ := List.lookup_eq_some_iff.mp h
  rw [hdata]
  exact List.mem_append_right _ List.mem_cons_self

theorem Row.SingleValued.get?_eq_some_iff (h : row.SingleValued) {name value : String} :
    row.get? name = some value ↔ (name, value) ∈ row.data := by
  constructor
  · exact mem_data_of_get?
  · intro hmem
    cases hget : row.get? name with
    | none =>
      have hne := List.lookup_eq_none_iff.mp hget _ hmem
      simp at hne
    | some value' => rw [h name value value' hmem (mem_data_of_get? hget)]

theorem Row.get?_congr (h : row.SingleValued) (hdata : ∀ pair, pair ∈ row.data ↔ pair ∈ row'.data)
    (name : String) : row.get? name = row'.get? name := by
  have h' : row'.SingleValued := fun name value value' hvalue hvalue' =>
    h name value value' ((hdata _).mpr hvalue) ((hdata _).mpr hvalue')
  refine Option.ext fun value => ?_
  rw [h.get?_eq_some_iff, h'.get?_eq_some_iff]
  exact hdata (name, value)

variable [PatternEngine]

/-- The row was made by the header, of some cells. -/
def Row.OfHeader (row : Row) (header : Header) : Prop :=
  ∃ cells, row = header.row cells row.location

/-- Headers that have the same columns compile alike, also to nothing. -/
theorem Header.matcher_congr (h : SameNames header.cells header'.cells) :
    header.matcher = header'.matcher :=
  congrArg Matcher.compile (Matcher.ofNames_eq_iff.mpr h)

theorem Row.OfHeader.matcher (h : row.OfHeader header) : row.matcher = header.matcher := by
  obtain ⟨cells, hrow⟩ := h
  rw [hrow]
  rfl

theorem Row.OfHeader.get?_of_notMem (h : row.OfHeader header) {name : String}
    (hname : name ∉ header.cells) : row.get? name = none := by
  obtain ⟨cells, hrow⟩ := h
  rw [hrow]
  exact Header.get?_row_of_notMem hname cells row.location

theorem Row.beq_iff (hcompiles : header.compiles = true) (hcompiles' : header'.compiles = true)
    (h : row.OfHeader header) (h' : row'.OfHeader header') :
    (row == row') = true ↔
      row.data = row'.data ∧ row.location = row'.location ∧
        SameNames header.cells header'.cells := by
  rw [beq_iff_eq, ← Matcher.compile_ofNames_eq_iff hcompiles hcompiles']
  show _ ↔ _ ∧ _ ∧ header.matcher = header'.matcher
  rw [← h.matcher, ← h'.matcher]
  obtain ⟨data, location, matcher⟩ := row
  obtain ⟨data', location', matcher'⟩ := row'
  exact Row.mk.injEq .. ▸ Iff.rfl

theorem Row.expand_congr (h : row.OfHeader header) (h' : row'.OfHeader header')
    (hnames : SameNames header.cells header'.cells)
    (hvalues : ∀ name ∈ header.cells, row.get? name = row'.get? name) :
    row.expand = row'.expand := by
  have hmatcher : row.matcher = row'.matcher := by
    rw [h.matcher, h'.matcher, Header.matcher_congr hnames]
  -- For names that are no column neither row has a value.
  have hget : row.get? = row'.get? := by
    funext name
    by_cases hname : name ∈ header.cells
    · exact hvalues name hname
    · rw [h.get?_of_notMem hname, h'.get?_of_notMem (mt (hnames name).mpr hname)]
  funext text
  rw [expand, expand, hmatcher, hget]

/-- Two texts are expanded alike if the rows have the same values, however they are arranged. -/
theorem Row.expand_congr_of_data (h : row.OfHeader header) (h' : row'.OfHeader header')
    (hnames : SameNames header.cells header'.cells) (hsingle : row.SingleValued)
    (hdata : ∀ pair, pair ∈ row.data ↔ pair ∈ row'.data) : row.expand = row'.expand :=
  expand_congr h h' hnames fun name _ => get?_congr hsingle hdata name

/-- A column that stands there once more is not looked up a second time, and no column is looked up
behind the last one. -/
theorem Header.get?_row_append (header : Header) {repeated cells : List String}
    (surplus : List String) (location : Location) (hlength : header.cells.length ≤ cells.length)
    {name : String} (hname : name ∈ header.cells) :
    (Header.row ⟨header.cells ++ repeated, header.location⟩ (cells ++ surplus) location).get? name =
      (header.row cells location).get? name := by
  have hindex : header.cells.idxOf name < cells.length :=
    (List.idxOf_lt_length_iff.mpr hname).trans_le hlength
  calc ((header.cells ++ repeated).zip (cells ++ surplus)).lookup name
      = (cells ++ surplus)[(header.cells ++ repeated).idxOf name]? :=
        lookup_zip (List.mem_append_left repeated hname) _
    _ = cells[header.cells.idxOf name]? := by
        rw [List.idxOf_append_of_mem hname, List.getElem?_append_left hindex]
    _ = (header.cells.zip cells).lookup name := (lookup_zip hname cells).symm

/-- **A matcher is a canonical form of the set of its columns.** It keeps the names sorted and without
neighbours that are equal. Its written form is that of another matcher exactly if the names are the
same, and so it is with what compiling leaves of them and with rows, which have their pairs and their
places beside it. Rows that give the same values to the same names expand every text alike, whether
or not their headers compile. -/
theorem Matcher.canonical :
    (∀ names : List String,
      (ofNames names).names = (names.mergeSort triedBefore).destutter (· ≠ ·)) ∧
    (∀ names others : List String,
      ((ofNames names == ofNames others) = true ↔ SameNames names others) ∧
      ((ofNames names).pattern? = (ofNames others).pattern? ↔ SameNames names others)) ∧
    (∀ names others : List String,
      (ofNames names).compiles = true → (ofNames others).compiles = true →
      (((ofNames names).compile == (ofNames others).compile) = true ↔ SameNames names others)) ∧
    (∀ (row row' : Row) (header header' : Header),
      header.compiles = true → header'.compiles = true →
      row.OfHeader header → row'.OfHeader header' →
      ((row == row') = true ↔
        row.data = row'.data ∧ row.location = row'.location ∧
          SameNames header.cells header'.cells)) ∧
    (∀ (row row' : Row) (header header' : Header), row.OfHeader header → row'.OfHeader header' →
      SameNames header.cells header'.cells →
      (∀ name ∈ header.cells, row.get? name = row'.get? name) →
      ∀ text, row.expand text = row'.expand text) ∧
    -- Columns that change places together with their cells leave the same pairs.
    (∀ (row row' : Row) (header header' : Header), row.OfHeader header → row'.OfHeader header' →
      SameNames header.cells header'.cells → row.SingleValued →
      (∀ pair, pair ∈ row.data ↔ pair ∈ row'.data) →
      ∀ text, row.expand text = row'.expand text) ∧
    (∀ (header : Header) (repeated cells surplus : List String) (location : Location),
      (∀ name ∈ repeated, name ∈ header.cells) → header.cells.length ≤ cells.length →
      ∀ text, (Header.row ⟨header.cells ++ repeated, header.location⟩ (cells ++ surplus)
          location).expand text =
        (header.row cells location).expand text) := by
  refine ⟨names_ofNames_eq_destutter, ?_, ?_, ?_, ?_, ?_, ?_⟩
  · intro names others
    exact ⟨beq_iff_eq.trans ofNames_eq_iff, pattern?_eq_iff⟩
  · intro names others h h'
    exact beq_iff_eq.trans (compile_ofNames_eq_iff h h')
  · intro row row' header header'
    exact Row.beq_iff
  · intro row row' header header' h h' hnames hvalues text
    exact congrFun (Row.expand_congr h h' hnames hvalues) text
  · intro row row' header header' h h' hnames hsingle hdata text
    exact congrFun (Row.expand_congr_of_data h h' hnames hsingle hdata) text
  · intro header repeated cells surplus location hrepeated hlength text
    have hnames : SameNames (header.cells ++ repeated) header.cells := .append_of_subset hrepeated
    refine congrFun (Row.expand_congr ⟨_, rfl⟩ ⟨_, rfl⟩ hnames fun name hname => ?_) text
    exact header.get?_row_append surplus location hlength ((hnames name).mp hname)

end Rows

/-- The columns of one table in another order, and one of them twice. -/
theorem Matcher.canonical_across_tables :
    let _ : PatternEngine := .sizeLimited
    let header : Header := ⟨["a", "a|b"], ⟨"cart.feature", 8⟩⟩
    let other : Header := ⟨["a|b", "a", "a"], ⟨"cart.feature", 20⟩⟩
    let row := header.row ["1", "2"] ⟨"cart.feature", 9⟩
    let row' := other.row ["2", "1", "1", "3"] ⟨"cart.feature", 21⟩
    (header.matcher == other.matcher) = true ∧ row ≠ row' ∧
      ∀ text, row.expand text = row'.expand text := by
  intro _ header other row row'
  have hnames : SameNames header.cells other.cells := by
    intro name
    simp [header, other, or_comm]
  have hcompiles : header.compiles = true := Matcher.compiles_of_share_le (by decide)
  have hcompiles' : other.compiles = true := Matcher.compiles_of_share_le (by decide)
  have hrow : row.OfHeader header := ⟨_, rfl⟩
  have hrow' : row'.OfHeader other := ⟨_, rfl⟩
  obtain ⟨-, -, hmatcher, hequal, hexpand, -, -⟩ := canonical
  refine ⟨(hmatcher _ _ hcompiles hcompiles').mpr hnames, ?_,
    hexpand row row' header other hrow hrow' hnames ?_⟩
  · intro heq
    have hsame := (hequal row row' header other hcompiles hcompiles' hrow hrow').mp
      (beq_iff_eq.mpr heq)
    exact absurd hsame.2.1 (by decide)
  · decide

end FeatureTree
