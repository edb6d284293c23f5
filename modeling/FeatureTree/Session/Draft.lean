import FeatureTree.Notice
import FeatureTree.Tree.Feature

/-!
# Drafts

While a document is being read, its feature is a draft: the records that have arrived, each in its
place. A draft becomes a tree when it is given a language. **Finishing does not use the draft up,**
so that a tree can be asked for again when more has arrived, and in another language.

The background is the exception to that. Scenarios share it, and trees that were handed out must
agree on it, so it is settled when a tree is finished for the first time: the draft remembers what
it was then, in the language of that time.

Examples tables have no language in them. They are made when they arrive.
-/

set_option autoImplicit false

namespace FeatureTree

/-! ## Backgrounds -/

/-- A background and the steps it has so far. -/
structure BackgroundDraft where
  placed : Placed
  steps : List Placed := []
deriving DecidableEq, Repr

namespace BackgroundDraft

def addStep (draft : BackgroundDraft) (step : Placed) : BackgroundDraft :=
  { draft with steps := draft.steps ++ [step] }

def finish (draft : BackgroundDraft) (language : Language) : Background :=
  .declared (.ofPlaced draft.placed) language
    (draft.steps.map fun step => ⟨.ofPlaced step language⟩)

end BackgroundDraft

/-! ## Children -/

/-- A scenario or an outline with what it has so far. -/
inductive ChildDraft where
  | scenario (placed : Placed) (steps : List Placed)
  | outline (placed : Placed) (steps : List Placed) (tables : List ExamplesTable)
deriving BEq, ReflBEq, LawfulBEq, Repr

namespace ChildDraft

def placed : ChildDraft → Placed
  | scenario placed _ => placed
  | outline placed _ _ => placed

def steps : ChildDraft → List Placed
  | scenario _ steps => steps
  | outline _ steps _ => steps

def isOutline : ChildDraft → Bool
  | scenario .. => false
  | outline .. => true

def addStep (draft : ChildDraft) (step : Placed) : ChildDraft :=
  match draft with
  | scenario placed steps => scenario placed (steps ++ [step])
  | outline placed steps tables => outline placed (steps ++ [step]) tables

def head (draft : ChildDraft) (background : Background) (language : Language)
    (featureTags : TagSet) : ScenarioHead :=
  { Head.ofPlaced draft.placed with
    language, background, featureTags
    tags := draft.placed.tags }

def finish (draft : ChildDraft) (background : Background) (language : Language)
    (featureTags : TagSet) : Child :=
  let head := draft.head background language featureTags
  match draft with
  | scenario _ steps =>
    .scenario { head with steps := steps.map fun step => ⟨.ofPlaced step language⟩ }
  | outline _ steps tables =>
    .outline { head with steps := steps.map fun step => ⟨.ofPlaced step language⟩, tables }

end ChildDraft

/-! ## Examples -/

/-- What there is to say about a header: that its tokens cannot be looked for. -/
def Header.notices [PatternEngine] (header : Header) : List Notice :=
  if header.compiles then [] else [.headerTooLarge PatternEngine.sizeLimit]

/-- What there is to say about a row: that it does not have as many cells as the header has. -/
def Header.rowNotices (header : Header) (cells : List String) (location : Location) :
    List Notice :=
  if cells.length = header.cells.length then []
  else [.raggedRow location cells.length header.cells.length]

/-- What there is to say about an examples block: that it has no header, or something about its
header and then about its rows. -/
def ExamplesTable.notices [PatternEngine] (placed : Placed) : List Notice :=
  match placed.record.rows with
  | [] => [.examplesWithoutHeader placed.location]
  | _ :: rows =>
    let header := Header.ofPlaced placed
    header.notices ++ rows.flatMap fun row =>
      header.rowNotices row.cells (placed.location.onLine row.line)

/-! ## Features -/

structure FeatureDraft where
  placed : Placed
  background : Option BackgroundDraft := none
  children : List ChildDraft := []
  /-- The background of the trees that were finished so far, if there were any. -/
  settled : Option Background := none
deriving BEq, ReflBEq, LawfulBEq, Repr

namespace FeatureDraft

/-- The background that a tree finished now has. -/
def resolve (draft : FeatureDraft) (language : Language) : Background :=
  match draft.settled, draft.background with
  | some background, _ => background
  | none, some background => background.finish language
  | none, none => .empty language

/-- The draft after a tree was finished: the background is settled. -/
def settle (draft : FeatureDraft) (language : Language) : FeatureDraft :=
  { draft with settled := some (draft.resolve language) }

def finish (draft : FeatureDraft) (language : Language) : Feature :=
  let background := draft.resolve language
  let tags := draft.placed.tags
  { (Head.ofPlaced draft.placed).trimmed with
    language, background, tags
    children := draft.children.map (·.finish background language tags) }

end FeatureDraft
end FeatureTree
