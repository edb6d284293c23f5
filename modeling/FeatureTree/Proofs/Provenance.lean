import FeatureTree.Proofs.Assembly
import FeatureTree.Proofs.Repeats
import Mathlib.Data.List.Forall2

/-!
# Where the nodes of a tree were written

A node is built when the tree is asked for, which may be long after its record arrived and after the
file has changed. **It is found in the file that was in effect when its record arrived, on the line
that the record gives it.** The file in effect is that of the last path before the record, in the
style of the settings; the arrivals of a session say this event by event, and the relations here say
node by node which arrival it is.
-/

set_option autoImplicit false

namespace FeatureTree

/-! ## The file in effect -/

/-- The paths that the calls set, in order. -/
def paths (calls : List Call) : List String :=
  (events calls).filterMap Event.path?

theorem Event.fileAfter_apply (style : PathStyle) (path : String) (event : Event) :
    event.fileAfter style (style.apply path) = style.apply (event.path?.getD path) := by
  unfold fileAfter
  cases event.path? <;> rfl

/-- The fold that a session carries out is a lookup of the last path. The style is applied to the
path that wins and to no other. -/
theorem foldl_fileAfter (style : PathStyle) (path : String) (list : List Event) :
    list.foldl (Event.fileAfter style) (style.apply path) =
      style.apply ((list.filterMap Event.path?).getLast?.getD path) := by
  induction list generalizing path with
  | nil => rfl
  | cons event list ih =>
    rw [List.foldl_cons, event.fileAfter_apply, ih, List.filterMap_cons]
    -- A later path replaces this one; without it, the one before stays.
    cases event.path? with
    | none => rfl
    | some next => rw [List.getLast?_cons]; rfl

/-- Every arrival has a file in the style of the session, since the file in effect at the start has
it and each path gets it. -/
theorem exists_file_eq_apply {style : PathStyle} {path : String} {list : List Event}
    {arrival : Arrival} (h : arrival ∈ arrivals style (style.apply path) list) :
    ∃ given, arrival.file = style.apply given := by
  induction list generalizing path with
  | nil => exact nomatch h
  | cons event list ih =>
    rw [arrivals, event.fileAfter_apply, List.mem_cons] at h
    rcases h with rfl | h
    · exact ⟨path, rfl⟩
    · exact ih h

namespace Settings

/-- The file in effect behind the calls is that of their last path, or the default one. -/
theorem fileAfter_eq (settings : Settings) (calls : List Call) :
    settings.fileAfter calls =
      settings.style.apply ((paths calls).getLast?.getD settings.defaultPath) :=
  foldl_fileAfter settings.style settings.defaultPath (events calls)

/-- All events of a session, each with the file in effect. -/
def arrivals (settings : Settings) (calls : List Call) : List Arrival :=
  FeatureTree.arrivals settings.style settings.initialPath (events calls)

theorem arrivals_append (settings : Settings) (front back : List Call) :
    settings.arrivals (front ++ back) = settings.arrivals front ++
      FeatureTree.arrivals settings.style (settings.fileAfter front) (events back) := by
  unfold arrivals
  rw [events_append, FeatureTree.arrivals_append]
  rfl

theorem length_arrivals (settings : Settings) (calls : List Call) :
    (settings.arrivals calls).length = (events calls).length := by
  rw [← List.length_map Arrival.event]
  exact congrArg List.length (map_event_arrivals ..)

/-- An event arrives at the file of the last path before it. -/
theorem getElem?_arrivals (settings : Settings) (front : List Call) (event : Event)
    (back : List Call) :
    (settings.arrivals (front ++ .event event :: back))[(events front).length]? =
      some ⟨settings.style.apply ((paths front).getLast?.getD settings.defaultPath), event⟩ := by
  rw [arrivals_append, ← length_arrivals settings front, List.getElem?_append_right
    (Nat.le_refl _), Nat.sub_self, ← fileAfter_eq]
  rfl

end Settings

/-! ## Nodes and their records -/

structure Head.LocatedBy (placed : Placed) (head : Head) : Prop where
  record : head.record = placed.record
  location : head.location = ⟨placed.file, placed.record.line⟩

/-- A tag is found where its name was written first. -/
structure TagSet.LocatedBy (placed : Placed) (set : TagSet) : Prop where
  location : set.location = ⟨placed.file, placed.record.line⟩
  tags : ∀ tag ∈ set.tags, ∃ raw,
    placed.record.tags.find? (fun raw => Tag.normalize raw.name == tag.name) = some raw ∧
      tag.location = ⟨placed.file, raw.line⟩

inductive Argument.LocatedBy (placed : Placed) : Option Argument → Prop
  | none : Argument.LocatedBy placed none
  | docString {text : DocString} {raw : RawDocString} (written : placed.record.docString = some raw)
      (location : text.location = ⟨placed.file, raw.line⟩) :
      Argument.LocatedBy placed (some (.docString text))
  | dataTable {table : DataTable} {first : RawRow} {rest : List RawRow}
      (written : placed.record.rows = first :: rest)
      (location : table.location = ⟨placed.file, first.line⟩) :
      Argument.LocatedBy placed (some (.dataTable table))

structure StepLine.LocatedBy (placed : Placed) (line : StepLine) : Prop where
  record : line.record = placed.record
  location : line.location = ⟨placed.file, placed.record.line⟩
  argument : Argument.LocatedBy placed line.argument

structure ExamplesTable.LocatedBy (block : Placed) (table : ExamplesTable) : Prop where
  head : table.toHead.LocatedBy block
  /-- The header is in the first row, or with the keyword if there are no rows. -/
  header : table.header.location =
    ⟨block.file, (block.record.rows.head?.map RawRow.line).getD block.record.line⟩
  rows : List.Forall₂ (fun row raw => row.location = ⟨block.file, raw.line⟩) table.rows
    block.record.rows.tail

structure ScenarioHead.LocatedBy (feature placed : Placed) (head : ScenarioHead) : Prop where
  opening : head.toHead.LocatedBy placed
  tags : head.tags.LocatedBy placed
  featureTags : head.featureTags.LocatedBy feature

/-- The child is that of a section: an opening event, and what it got. -/
inductive Child.LocatedBy (feature : Placed) : Child → Arrival × List Arrival → Prop
  | scenario {s : Scenario} {file : String} {record : Record} {body : List Arrival}
      (head : s.toScenarioHead.LocatedBy feature ⟨file, record⟩)
      (steps : List.Forall₂ (fun step placed => step.toStepLine.LocatedBy placed) s.steps
        (body.filterMap Arrival.step?)) :
      Child.LocatedBy feature (.scenario s) (⟨file, .openScenario record⟩, body)
  | outline {o : Outline} {file : String} {record : Record} {body : List Arrival}
      (head : o.toScenarioHead.LocatedBy feature ⟨file, record⟩)
      (steps : List.Forall₂ (fun step placed => step.toStepLine.LocatedBy placed) o.steps
        (body.filterMap Arrival.step?))
      (tables : List.Forall₂ (fun table block => table.LocatedBy block) o.tables
        (body.filterMap Arrival.block?)) :
      Child.LocatedBy feature (.outline o) (⟨file, .openOutline record⟩, body)

/-- A background that is declared is the first of those that arrived, with the first steps of its
section: all that there were when it was settled. -/
inductive Background.LocatedBy (since : List Arrival) : Background → Prop
  | empty {language : Language} : Background.LocatedBy since (.empty language)
  | declared {head : Head} {language : Language} {steps : List Step} {front rest : List Arrival}
      {file : String} {record : Record} {taken : List Placed}
      (arrived : since = front ++ ⟨file, .openBackground record⟩ :: rest)
      (first : ∀ arrival ∈ front, ∀ r, arrival.event ≠ .openBackground r)
      (location : head.LocatedBy ⟨file, record⟩)
      (early : taken <+:
        (rest.takeWhile fun arrival => !arrival.opensContainer).filterMap Arrival.step?)
      (located : List.Forall₂ (fun step placed => step.toStepLine.LocatedBy placed) steps taken) :
      Background.LocatedBy since (.declared head language steps)

def Event.opensChild : Event → Bool
  | openScenario _ | openOutline _ => true
  | _ => false

/-- Every node of the tree is at the place of its record. -/
structure Feature.LocatedBy (placed : Placed) (since : List Arrival) (feature : Feature) :
    Prop where
  head : feature.toHead.LocatedBy placed
  tags : feature.tags.LocatedBy placed
  background : feature.background.LocatedBy since
  children : List.Forall₂ (Child.LocatedBy placed) feature.children
    ((sections Arrival.opensContainer since).filter fun part => part.1.event.opensChild)
  /-- A child has no background of its own. -/
  shared : ∀ child ∈ feature.children, child.head.background = feature.background

/-! ## Nodes that are made from records -/

theorem forall₂_map_left_of {α β : Type} {R : α → β → Prop} {f : β → α} (h : ∀ b, R (f b) b)
    (l : List β) : List.Forall₂ R (l.map f) l := by
  rw [List.forall₂_map_left_iff, List.forall₂_same]
  exact fun b _ => h b

theorem exists_of_mem_of_forall₂ {α β : Type} {R : α → β → Prop} {l : List α} {sources : List β}
    (h : List.Forall₂ R l sources) {a : α} (ha : a ∈ l) : ∃ b ∈ sources, R a b := by
  induction h with
  | nil => exact nomatch ha
  | cons hfirst _ ih =>
    rcases List.mem_cons.mp ha with rfl | ha
    · exact ⟨_, List.mem_cons_self, hfirst⟩
    · obtain ⟨b, hb, hrelated⟩ := ih ha
      exact ⟨b, List.mem_cons_of_mem _ hb, hrelated⟩

/-- The set keeps the first tag of each name, and a search by name finds the first raw tag: the same
one, whose line it has. -/
theorem TagSet.locatedBy_tags (placed : Placed) : placed.tags.LocatedBy placed where
  location := rfl
  tags := by
    intro tag htag
    let located := fun raw : RawTag => Tag.ofSpelling raw.name ⟨placed.file, raw.line⟩
    have hmem : tag ∈ firstsBy Tag.name (placed.record.tags.map located) :=
      eraseDupsBy_eq_firstsBy Tag.name _ ▸ htag
    -- The first tag of a name is the one that a search by name finds.
    have hfind := find?_of_mem_firstsBy Tag.name hmem
    rw [List.find?_map] at hfind
    obtain ⟨raw, hraw, htagged⟩ := Option.map_eq_some_iff.mp hfind
    simp only [Function.comp_def, located, Tag.ofSpelling] at hraw
    exact ⟨raw, hraw, congrArg Tag.location htagged.symm⟩

/-- By the same cases as the definition, a doc string first. -/
theorem Argument.locatedBy_ofRecord? (placed : Placed) :
    Argument.LocatedBy placed (Argument.ofRecord? placed.record placed.location) := by
  unfold Argument.ofRecord?
  cases hdoc : placed.record.docString with
  | some text => exact .docString hdoc rfl
  | none =>
    cases hrows : placed.record.rows with
    | nil => exact .none
    | cons first rest => exact .dataTable hrows rfl

theorem StepLine.locatedBy_ofPlaced (language : Language) (placed : Placed) :
    (StepLine.ofPlaced placed language).LocatedBy placed where
  record := rfl
  location := rfl
  argument := Argument.locatedBy_ofRecord? placed

theorem ExamplesTable.locatedBy_ofPlaced [PatternEngine] (block : Placed) :
    (ExamplesTable.ofPlaced block).LocatedBy block where
  head := ⟨rfl, rfl⟩
  header := by
    show (Header.ofPlaced block).location = _
    unfold Header.ofPlaced
    cases block.record.rows <;> rfl
  rows := by
    show List.Forall₂ _ (block.record.rows.tail.map _) _
    rw [List.forall₂_map_left_iff, List.forall₂_same]
    exact fun _ _ => rfl

/-- The tags of a child are where its own record has them, and the inherited ones where the
feature's has them. -/
theorem ChildDraft.locatedBy_head (feature : Placed) (draft : ChildDraft) (background : Background)
    (language : Language) :
    (draft.head background language feature.tags).LocatedBy feature draft.placed where
  opening := ⟨rfl, rfl⟩
  tags := TagSet.locatedBy_tags draft.placed
  featureTags := TagSet.locatedBy_tags feature

/-- Sections that open no child are passed over on both sides, so the two lists stay in step. -/
theorem children_locatedBy [PatternEngine] (feature : Placed) (background : Background)
    (language : Language) (parts : List (Arrival × List Arrival)) :
    List.Forall₂ (Child.LocatedBy feature)
      ((parts.filterMap ChildDraft.ofSection?).map (·.finish background language feature.tags))
      (parts.filter fun part => part.1.event.opensChild) := by
  have hstep : ∀ placed, (StepLine.ofPlaced placed language).LocatedBy placed :=
    StepLine.locatedBy_ofPlaced language
  induction parts with
  | nil => exact .nil
  | cons part parts ih =>
    obtain ⟨⟨file, event⟩, body⟩ := part
    cases event with
    | openScenario record =>
      exact .cons (.scenario (ChildDraft.locatedBy_head feature (.scenario ⟨file, record⟩ _) _ _)
        (forall₂_map_left_of hstep _)) ih
    | openOutline record =>
      exact .cons (.outline (ChildDraft.locatedBy_head feature (.outline ⟨file, record⟩ _ _) _ _)
        (forall₂_map_left_of hstep _)
        (forall₂_map_left_of ExamplesTable.locatedBy_ofPlaced _)) ih
    | _ => exact ih

/-! ### The background -/

theorem takeWhile_isPrefix_append {α : Type} (p : α → Bool) (l more : List α) :
    l.takeWhile p <+: (l ++ more).takeWhile p := by
  rw [List.takeWhile_append]
  split
  · exact (List.takeWhile_prefix p).trans (List.prefix_append l _)
  · exact List.prefix_rfl

def Event.opensBackground : Event → Bool
  | openBackground _ => true
  | _ => false

/-- What arrives later does not move a background that was settled early. -/
theorem Background.locatedBy_resolve [PatternEngine] (placed : Placed) {early since : List Arrival}
    (h : early <+: since) (language : Language) :
    ((FeatureDraft.ofArrivals placed early).resolve language).LocatedBy since := by
  obtain ⟨late, rfl⟩ := h
  cases hfind : early.find? fun arrival => arrival.event.opensBackground with
  | none =>
    have hnone : ∀ arrival ∈ early, ∀ r, arrival.event ≠ .openBackground r := by
      intro arrival harrival r hevent
      have hopens := List.find?_eq_none.mp hfind arrival harrival
      exact hopens (by rw [hevent]; rfl)
    rw [resolve_ofArrivals_of_none placed language hnone]
    exact .empty
  | some opening =>
    obtain ⟨hopens, front, rest, rfl, hfront⟩ := List.find?_eq_some_iff_append.mp hfind
    obtain ⟨file, event⟩ := opening
    cases event with
    | openBackground record =>
      have hfirst : ∀ arrival ∈ front, ∀ r, arrival.event ≠ .openBackground r := by
        intro arrival harrival r hevent
        have hnone := hfront arrival harrival
        rw [hevent] at hnone
        exact Bool.noConfusion hnone
      -- The first background of the early part is the first of all, and its steps go on later.
      rw [resolve_ofArrivals_of_first placed language hfirst]
      exact .declared (List.append_assoc ..) hfirst ⟨rfl, rfl⟩
        ((takeWhile_isPrefix_append _ rest late).filterMap Arrival.step?)
        (forall₂_map_left_of (StepLine.locatedBy_ofPlaced language) _)
    | _ => exact Bool.noConfusion hopens

/-- All children of a tree are given one background. -/
theorem ChildDraft.background_head_finish (draft : ChildDraft) (background : Background)
    (language : Language) (featureTags : TagSet) :
    (draft.finish background language featureTags).head.background = background := by
  cases draft <;> rfl

/-- A tree that is made from arrivals has its nodes where these say, whenever its background was
settled. -/
theorem Feature.MadeFrom.locatedBy [PatternEngine] {placed : Placed} {since : List Arrival}
    {feature : Feature} (h : feature.MadeFrom placed since) : feature.LocatedBy placed since := by
  obtain ⟨⟨settled, hfinish⟩, early, language, hearly, hbackground⟩ := h
  refine ⟨?_, ?_, ?_, ?_, ?_⟩
  · rw [hfinish]
    exact ⟨rfl, rfl⟩
  · rw [hfinish]
    exact TagSet.locatedBy_tags placed
  · rw [hbackground]
    exact Background.locatedBy_resolve placed hearly language
  · rw [hfinish]
    exact children_locatedBy placed _ _ _
  · rw [hfinish]
    intro child hchild
    obtain ⟨draft, -, rfl⟩ := List.mem_map.mp hchild
    exact draft.background_head_finish _ _ _

end FeatureTree
