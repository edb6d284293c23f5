import FeatureTree.Argument

/-!
# Going over the texts of an argument

An argument is its texts in a shape. A function that has a state, say a counter, can be sent over
the texts to replace them, and then the order of the calls shows. **It is called once for each text,
row by row and in a row from left to right, each time in the state that the call before has left;
the shape stays as it is.** That a table is a list of rows, some of them empty, makes no difference
to the calls, which are those of one pass over the list of all cells.

As an argument has no more to it than texts and shape, this says all about the result. What holds of
functions without a state follows: changing nothing gives the argument back, and two changes after
each other are one.
-/

set_option autoImplicit false

namespace FeatureTree
namespace Argument

variable {S : Type} {f : String → StateM S String} {state next last : S}
  {texts answers more moreAnswers : List String}

/-! ## Shapes -/

/-- What there is to an argument besides its texts. -/
inductive Shape where
  | docString (contentType : Option String) (location : Location)
  /-- The rows have these lengths. -/
  | dataTable (lengths : List Nat) (location : Location)
deriving DecidableEq, Repr

def shape : Argument → Shape
  | docString text => .docString text.contentType text.location
  | dataTable table => .dataTable (table.rows.map List.length) table.location

/-- An argument is its shape and its texts. Tables come down to this: rows are known by their cells
in one list and by their lengths. -/
theorem eq_of_shape_of_texts {a b : Argument} (hshape : a.shape = b.shape)
    (htexts : a.texts = b.texts) : a = b := by
  cases a with
  | docString a =>
    cases b with
    | dataTable => exact nomatch hshape
    | docString b =>
      obtain ⟨content, contentType, location⟩ := a
      obtain ⟨rfl, rfl⟩ := Shape.docString.inj hshape
      obtain rfl := (List.cons.inj htexts).1
      rfl
  | dataTable a =>
    cases b with
    | docString => exact nomatch hshape
    | dataTable b =>
      obtain ⟨rows, location⟩ := a
      obtain ⟨hlengths, rfl⟩ := Shape.dataTable.inj hshape
      obtain rfl := List.eq_iff_flatten_eq.mpr ⟨htexts, hlengths⟩
      rfl

theorem shape_mapTexts (g : String → String) (argument : Argument) :
    (argument.mapTexts g).shape = argument.shape := by
  cases argument with
  | docString text => rfl
  | dataTable table => simp [mapTexts, shape, Function.comp_def]

theorem texts_mapTexts (g : String → String) (argument : Argument) :
    (argument.mapTexts g).texts = argument.texts.map g := by
  cases argument with
  | docString text => rfl
  | dataTable table => exact List.map_flatten.symm

/-! ## Passes -/

/-- A pass of a function with a state over a list of texts: it is called on one text after the
other, and each call finds the state that the one before has left. -/
inductive Pass (f : String → StateM S String) : S → List String → List String → S → Prop
  | done {state : S} : Pass f state [] [] state
  | call {state next last : S} {text answer : String} {texts answers : List String}
      (first : (f text).run state = (answer, next)) (rest : Pass f next texts answers last) :
      Pass f state (text :: texts) (answer :: answers) last

/-- There is one way for a pass to go. -/
theorem Pass.unique {answers' : List String} {last' : S} (h : Pass f state texts answers last)
    (h' : Pass f state texts answers' last') : answers = answers' ∧ last = last' := by
  induction h generalizing answers' with
  | done =>
    cases h'
    exact ⟨rfl, rfl⟩
  | call first _ ih =>
    cases h' with
    | call first' rest' =>
      obtain ⟨rfl, rfl⟩ := Prod.mk.inj (first.symm.trans first')
      obtain ⟨rfl, rfl⟩ := ih rest'
      exact ⟨rfl, rfl⟩

theorem Pass.append (h : Pass f state texts answers next)
    (h' : Pass f next more moreAnswers last) :
    Pass f state (texts ++ more) (answers ++ moreAnswers) last := by
  induction h with
  | done => exact h'
  | call first _ ih => exact .call first (ih h')

theorem Pass.length_eq (h : Pass f state texts answers last) : answers.length = texts.length := by
  induction h with
  | done => rfl
  | call _ _ ih => exact congrArg (· + 1) ih

/-- The same function, which also writes down the texts that it is called on. -/
def noting (f : String → StateM S String) (text : String) : StateM (S × List String) String :=
  fun (state, noted) =>
    let (answer, next) := (f text).run state
    (answer, next, noted ++ [text])

theorem Pass.noting (h : Pass f state texts answers last) (noted : List String) :
    Pass (noting f) (state, noted) texts answers (last, noted ++ texts) := by
  induction h generalizing noted with
  | done =>
    rw [List.append_nil]
    exact .done
  | @call state next last text answer texts answers first _ ih =>
    have hfirst : (Argument.noting f text).run (state, noted) =
        (answer, next, noted ++ [text]) := by
      show ((f text).run state).map id (fun next => (next, noted ++ [text])) = _
      rw [first]
      rfl
    -- What was noted before stays in front, so the induction is over every such front.
    have hrest := ih (noted ++ [text])
    rw [List.append_assoc, List.singleton_append] at hrest
    exact .call hfirst hrest

/-! ## Texts, rows, arguments -/

/-- Mapping a list with a state is a pass over it. -/
theorem pass_texts (f : String → StateM S String) (texts : List String) (state : S) :
    Pass f state texts ((texts.mapM f).run state).1 ((texts.mapM f).run state).2 := by
  induction texts generalizing state with
  | nil => exact .done
  | cons text texts ih =>
    rw [List.mapM_cons]
    exact .call rfl (ih _)

/-- Row by row the cells are passed over as they are without rows. -/
theorem pass_rows (f : String → StateM S String) (rows : List (List String)) (state : S) :
    let (rows', last) := (rows.mapM (List.mapM f)).run state
    Pass f state rows.flatten rows'.flatten last ∧
      rows'.map List.length = rows.map List.length := by
  induction rows generalizing state with
  | nil => exact ⟨.done, rfl⟩
  | cons row rows ih =>
    rw [List.mapM_cons]
    have hrow := pass_texts f row state
    obtain ⟨hrows, hlengths⟩ := ih ((row.mapM f).run state).2
    exact ⟨hrow.append hrows, List.cons_eq_cons.mpr ⟨hrow.length_eq, hlengths⟩⟩

theorem pass_mapTextsM (f : String → StateM S String) (argument : Argument) (state : S) :
    let (result, last) := (argument.mapTextsM f).run state
    Pass f state argument.texts result.texts last ∧ result.shape = argument.shape := by
  cases argument with
  | docString text => exact ⟨.call rfl .done, rfl⟩
  | dataTable table =>
    obtain ⟨hpass, hlengths⟩ := pass_rows f table.rows state
    exact ⟨hpass, congrArg (Shape.dataTable · table.location) hlengths⟩

/-- **One pass over the texts, and the same shape.** What the function is called on, and in which
order, is also what it can write down on the way. A function without a state changes each text where
it stands. -/
theorem mapTextsM_traverses (argument : Argument) :
    (∀ {S : Type} (f : String → StateM S String) (state : S),
      let (result, last) := (argument.mapTextsM f).run state
      Pass f state argument.texts result.texts last ∧
        result.shape = argument.shape ∧
        (argument.mapTextsM (noting f)).run (state, []) = (result, last, argument.texts)) ∧
    (∀ {S : Type} (g : String → String),
      argument.mapTextsM (fun text => (pure (g text) : StateM S String)) =
        pure (argument.mapTexts g)) ∧
    argument.mapTexts id = argument ∧
    ∀ g h : String → String, (argument.mapTexts h).mapTexts g = argument.mapTexts (g ∘ h) := by
  refine ⟨?_, fun g => mapTextsM_pure g argument, ?_, ?_⟩
  · intro S f state
    obtain ⟨hpass, hshape⟩ := pass_mapTextsM f argument state
    obtain ⟨hpass', hshape'⟩ := pass_mapTextsM (noting f) argument (state, [])
    -- There is one way for the noting function to go, and the pass of the other with its texts
    -- noted is one.
    obtain ⟨htexts, hlast⟩ := hpass'.unique (hpass.noting [])
    have hresult := eq_of_shape_of_texts (hshape'.trans hshape.symm) htexts
    exact ⟨hpass, hshape, Prod.ext hresult hlast⟩
  · refine eq_of_shape_of_texts (shape_mapTexts id argument) ?_
    rw [texts_mapTexts, List.map_id]
  · intro g h
    refine eq_of_shape_of_texts ?_ ?_
    · rw [shape_mapTexts, shape_mapTexts, shape_mapTexts]
    · rw [texts_mapTexts, texts_mapTexts, texts_mapTexts, List.map_map]

/-- A counter goes on from row to row, and a row without cells stays. -/
example (place : Location) :
    let count (text : String) : StateM Nat String := fun n => (text ++ toString n, n + 1)
    ((dataTable ⟨[["a", "b"], [], ["c"]], place⟩).mapTextsM count).run 1 =
      (dataTable ⟨[["a1", "b2"], [], ["c3"]], place⟩, 4) := by
  cbv

end Argument
end FeatureTree
