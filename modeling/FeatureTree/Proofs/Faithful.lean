import FeatureTree.Proofs.Assembly
import FeatureTree.Proofs.Limits
import FeatureTree.Proofs.SameValue

/-!
# Trees and their encodings

An encoding leaves out the matchers of rows. Two rows that are encoded the same may differ in them,
but not two rows of trees: **in a tree that a session makes, each row has the matcher of the header
above it, and the header is written.** So trees that are encoded the same are equal, whatever
sessions they come from.
-/

set_option autoImplicit false

namespace FeatureTree

open Value (Faithful)

/-! ## Records -/

/-- Field by field: what is encoded the same has the same fields under the same names. The proofs
for plain records below have no other argument. -/
theorem RawTag.faithful : Faithful RawTag.encode := by
  intro a b h
  have hname := Faithful.text (h.field "name" rfl rfl)
  have hline := Faithful.number (h.field "line" rfl rfl)
  cases a; cases b; congr

theorem RawComment.faithful : Faithful RawComment.encode := by
  intro a b h
  have hvalue := Faithful.text (h.field "value" rfl rfl)
  have hline := Faithful.number (h.field "line" rfl rfl)
  cases a; cases b; congr

/-- Content of no type is told from content of the empty type. -/
theorem Value.Faithful.contentType : Faithful (Value.option Value.text) :=
  Faithful.text.option fun _ h => nomatch h

theorem RawDocString.faithful : Faithful RawDocString.encode := by
  intro a b h
  have hcontent := Faithful.text (h.field "content" rfl rfl)
  have htype := Faithful.contentType (h.field "content_type" rfl rfl)
  have hline := Faithful.number (h.field "line" rfl rfl)
  cases a; cases b; congr

theorem RawRow.faithful : Faithful RawRow.encode := by
  intro a b h
  have hcells := Faithful.text.array (h.field "cells" rfl rfl)
  have hline := Faithful.number (h.field "line" rfl rfl)
  cases a; cases b; congr

/-- A record is told by its fields. A doc string is an object and so never encoded as one that is
not there. -/
theorem Record.faithful : Faithful Record.encode := by
  intro a b h
  have hline := Faithful.number (h.field "line" rfl rfl)
  have htags := RawTag.faithful.array (h.field "tags" rfl rfl)
  have hcomments := RawComment.faithful.array (h.field "comments" rfl rfl)
  have hkeyword := Faithful.text (h.field "keyword" rfl rfl)
  have hname := Faithful.text (h.field "name" rfl rfl)
  have hdescription := Faithful.text (h.field "description" rfl rfl)
  have hdoc := RawDocString.faithful.option (fun _ h => nomatch h) (h.field "doc_string" rfl rfl)
  have hrows := RawRow.faithful.array (h.field "rows" rfl rfl)
  cases a; cases b; congr

/-! ## The parts of nodes -/

theorem Location.faithful : Faithful Location.encode := by
  intro a b h
  have hfile := Faithful.text (h.field "file" rfl rfl)
  have hline := Faithful.number (h.field "line" rfl rfl)
  cases a; cases b; congr

theorem Comment.faithful : Faithful Comment.encode :=
  fun _ _ h => congrArg Comment.mk (Faithful.text h)

theorem Language.faithful : Faithful Language.encode :=
  fun _ _ h => congrArg Language.mk (Faithful.text h)

theorem Tag.faithful : Faithful Tag.encode := by
  intro a b h
  have hname := Faithful.text (h.field "name" rfl rfl)
  have hlocation := Location.faithful (h.field "location" rfl rfl)
  cases a; cases b; congr

theorem TagSet.faithful : Faithful TagSet.encode := by
  intro a b h
  have hlocation := Location.faithful (h.field "location" rfl rfl)
  have htags := Tag.faithful.array (h.field "tags" rfl rfl)
  cases a; cases b; congr

/-- The type of the content is the one field here that may be absent. -/
theorem DocString.faithful : Faithful DocString.encode := by
  intro a b h
  have hcontent := Faithful.text (h.field "content" rfl rfl)
  have htype := Faithful.contentType (h.field "content_type" rfl rfl)
  have hlocation := Location.faithful (h.field "location" rfl rfl)
  cases a; cases b; congr

theorem DataTable.faithful : Faithful DataTable.encode := by
  intro a b h
  have hrows := Faithful.text.array.array (h.field "rows" rfl rfl)
  have hlocation := Location.faithful (h.field "location" rfl rfl)
  cases a; cases b; congr

theorem Argument.not_same_docString_dataTable (text : DocString) (table : DataTable) :
    ¬ (docString text).encode.Same (dataTable table).encode :=
  fun h => absurd h.tagged.1 (by decide)

/-- The tag of the encoding tells the two kinds of argument apart before their fields are compared.
-/
theorem Argument.faithful : Faithful Argument.encode := by
  intro a b h
  cases a with
  | docString text =>
    cases b with
    | docString other => exact congrArg docString (DocString.faithful h.tagged.2)
    | dataTable other => exact absurd h (not_same_docString_dataTable text other)
  | dataTable table =>
    cases b with
    | docString other => exact absurd h.tagged.1 (by decide)
    | dataTable other => exact congrArg dataTable (DataTable.faithful h.tagged.2)

theorem Header.faithful : Faithful Header.encode := by
  intro a b h
  have hcells := Faithful.text.array (h.field "cells" rfl rfl)
  have hlocation := Location.faithful (h.field "location" rfl rfl)
  cases a; cases b; congr

theorem Head.faithful : Faithful Head.encode := by
  intro a b h
  have hrecord := Record.faithful (h.field "record" rfl rfl)
  have hlocation := Location.faithful (h.field "location" rfl rfl)
  have hcomment := Comment.faithful (h.field "comment" rfl rfl)
  have hkeyword := Faithful.text (h.field "keyword" rfl rfl)
  have hname := Faithful.text (h.field "name" rfl rfl)
  have hdescription := Faithful.text (h.field "description" rfl rfl)
  cases a; cases b; congr

/-! ## Nodes without rows -/

/-- An argument is tagged, hence never encoded as `null`, which stands for none. -/
theorem StepLine.faithful : Faithful StepLine.encode := by
  intro a b h
  have hrecord := Record.faithful (h.field "record" rfl rfl)
  have hlanguage := Language.faithful (h.field "language" rfl rfl)
  have hlocation := Location.faithful (h.field "location" rfl rfl)
  have hkeyword := Faithful.text (h.field "keyword" rfl rfl)
  have hname := Faithful.text (h.field "name" rfl rfl)
  have hargument : a.argument = b.argument :=
    Argument.faithful.option (fun argument => by cases argument <;> exact fun h => nomatch h)
      (h.field "argument" rfl rfl)
  cases a; cases b; congr

theorem Step.faithful : Faithful Step.encode :=
  fun _ _ h => congrArg Step.mk (StepLine.faithful h)

theorem OutlineStep.faithful : Faithful OutlineStep.encode :=
  fun _ _ h => congrArg OutlineStep.mk (StepLine.faithful h)

/-- A background has a head exactly if it was declared, so its head tells the two kinds apart. -/
theorem Background.faithful : Faithful Background.encode := by
  intro a b h
  have hhead := Head.faithful.option (fun _ h => nomatch h) (h.field "head" rfl rfl)
  have hlanguage := Language.faithful (h.field "language" rfl rfl)
  have hsteps := Step.faithful.array (h.field "steps" rfl rfl)
  cases a with
  | empty language =>
    cases b with
    | empty => exact congrArg empty hlanguage
    | declared => exact nomatch hhead
  | declared head language steps =>
    cases b with
    | empty => exact nomatch hhead
    | declared head' =>
      obtain rfl := Option.some.inj hhead
      congr

/-- Scenarios and outlines write the same fields in front of their own, so this is for both. -/
theorem ScenarioHead.eq_of_same {a b : ScenarioHead} {rest others : List (String × Value)}
    (h : (Value.object (a.encodeFields ++ rest)).Same (.object (b.encodeFields ++ others))) :
    a = b := by
  have hhead := Head.faithful (h.field "head" rfl rfl)
  have hlanguage := Language.faithful (h.field "language" rfl rfl)
  have hbackground := Background.faithful (h.field "background" rfl rfl)
  have htags := TagSet.faithful (h.field "tags" rfl rfl)
  have hfeatureTags := TagSet.faithful (h.field "feature_tags" rfl rfl)
  cases a; cases b; congr

theorem Scenario.faithful : Faithful Scenario.encode := by
  intro a b h
  have hhead := ScenarioHead.eq_of_same h
  have hsteps := Step.faithful.array (h.field "steps" rfl rfl)
  cases a; cases b; congr

/-! ## Nodes with rows -/

/-- The matcher has to be known, for the encoding leaves it out. -/
theorem Row.eq_of_same {a b : Row} (hmatcher : a.matcher = b.matcher)
    (h : a.encode.Same b.encode) : a = b := by
  -- A pair of the row is written as a list of two texts.
  have hpair : Faithful fun pair : String × String => .list [.text pair.1, .text pair.2] := by
    rintro ⟨column, value⟩ ⟨column', value'⟩ ⟨⟩
    next each =>
    obtain ⟨hcolumn, hrest⟩ := List.forall₂_cons.mp each
    obtain ⟨hvalue, -⟩ := List.forall₂_cons.mp hrest
    exact congrArg₂ Prod.mk (Faithful.text hcolumn) (Faithful.text hvalue)
  have hdata := hpair.array (h.field "data" rfl rfl)
  have hlocation := Location.faithful (h.field "location" rfl rfl)
  cases a; cases b; congr

/-- Rows that stand on no table may be encoded the same without being equal: a column that has no
value is in the matcher alone. -/
theorem Row.exists_same_ne : ∃ a b : Row, a.encode.Same b.encode ∧ (a == b) = false := by
  let _ : PatternEngine := .sizeLimited
  let narrow : Header := ⟨["user"], ⟨"a.feature", 1⟩⟩
  let wide : Header := { narrow with cells := ["user", "password"] }
  refine ⟨narrow.row ["eve"] ⟨"a.feature", 2⟩, wide.row ["eve"] ⟨"a.feature", 2⟩, .refl _, ?_⟩
  rw [beq_eq_false_iff_ne]
  intro heq
  -- The missing value leaves no trace in the data, but the wider matcher has one name more.
  have hlength : narrow.matcher.names.length = wide.matcher.names.length :=
    congrArg (fun row => row.matcher.names.length) heq
  have hnames : ∀ names, (Matcher.ofNames names).names.length = names.eraseDups.length :=
    fun _ => List.length_mergeSort _
  rw [Header.matcher_of_compiles (Matcher.compiles_of_share_le (by decide)),
    Header.matcher_of_compiles (Matcher.compiles_of_share_le (by decide)), hnames,
    hnames] at hlength
  exact absurd hlength (by decide)

/-- A scenario is tagged as one, also where an outline has the same fields. -/
theorem Child.not_same_scenario_outline (s : Scenario) (o : Outline) :
    ¬ (scenario s).encode.Same (outline o).encode :=
  fun h => absurd h.tagged.1 (by decide)

variable [PatternEngine]

/-- Each row has the matcher of the table's header. -/
def ExamplesTable.Built (table : ExamplesTable) : Prop :=
  ∀ row ∈ table.rows, row.matcher = table.header.matcher

/-- Every table in the child is built. -/
def Child.Built (child : Child) : Prop :=
  ∀ outline, child.outline? = some outline → ∀ table ∈ outline.tables, table.Built

def Feature.Built (feature : Feature) : Prop :=
  ∀ child ∈ feature.children, child.Built

/-- In a built table the header decides the matchers, and the header is written. -/
theorem ExamplesTable.eq_of_same {a b : ExamplesTable} (ha : a.Built) (hb : b.Built)
    (h : a.encode.Same b.encode) : a = b := by
  have hhead := Head.faithful (h.field "head" rfl rfl)
  have hheader : a.header = b.header := Header.faithful (h.field "header" rfl rfl)
  have hsame : (Value.array Row.encode a.rows).Same (.array Row.encode b.rows) :=
    h.field "rows" rfl rfl
  have hrows : a.rows = b.rows := by
    refine hsame.array_eq fun row hrow other hother => Row.eq_of_same ?_
    rw [ha row hrow, hb other hother, hheader]
  cases a; cases b; congr

/-- By the kinds of both children. The mixed cases are told apart by the tags. -/
theorem Child.eq_of_same {a b : Child} (ha : a.Built) (hb : b.Built)
    (h : a.encode.Same b.encode) : a = b := by
  cases a with
  | scenario s =>
    cases b with
    | scenario t => exact congrArg scenario (Scenario.faithful h.tagged.2)
    | outline o => exact absurd h (not_same_scenario_outline s o)
  | outline o =>
    cases b with
    | scenario s => exact absurd h.tagged.1 (by decide)
    | outline p =>
      have hfields := h.tagged.2
      have hhead := ScenarioHead.eq_of_same hfields
      have hsteps := OutlineStep.faithful.array (hfields.field "steps" rfl rfl)
      have hsame : (Value.array ExamplesTable.encode o.tables).Same
          (.array ExamplesTable.encode p.tables) := hfields.field "examples_tables" rfl rfl
      have htables := hsame.array_eq fun table htable other hother =>
        ExamplesTable.eq_of_same (ha o rfl table htable) (hb p rfl other hother)
      refine congrArg outline ?_
      cases o; cases p; congr

/-- The tables are the one place where being built is asked for; all else of a feature is faithful
as it is. -/
theorem Feature.eq_of_same {a b : Feature} (ha : a.Built) (hb : b.Built)
    (h : a.encode.Same b.encode) : a = b := by
  have hhead := Head.faithful (h.field "head" rfl rfl)
  have hlanguage := Language.faithful (h.field "language" rfl rfl)
  have hbackground := Background.faithful (h.field "background" rfl rfl)
  have htags := TagSet.faithful (h.field "tags" rfl rfl)
  have hsame : (Value.array Child.encode a.children).Same (.array Child.encode b.children) :=
    h.field "children" rfl rfl
  -- Children are compared where they stand; that they are built is known of each by itself.
  have hchildren := hsame.array_eq fun child hchild other hother =>
    Child.eq_of_same (ha child hchild) (hb other hother)
  cases a; cases b; congr

/-! ## Trees that sessions make -/

theorem ExamplesTable.built_ofPlaced (placed : Placed) : (ofPlaced placed).Built := by
  intro row hrow
  obtain ⟨raw, -, rfl⟩ := List.mem_map.mp hrow
  rfl

/-- All tables of a draft were made from placed records, whatever arrived. -/
theorem FeatureDraft.built_finish (placed : Placed) (list : List Arrival)
    (settled : Option Background) (language : Language) :
    ((ofArrivals placed list settled).finish language).Built := by
  intro child hchild outline houtline
  obtain ⟨draft, hdraft, rfl⟩ := List.mem_map.mp hchild
  rcases cases_of_mem_children hdraft with ⟨_, _, rfl⟩ | ⟨_, _, blocks, rfl⟩
  · exact nomatch houtline
  · obtain rfl := Option.some.inj houtline
    exact List.forall_mem_map.mpr fun block _ => ExamplesTable.built_ofPlaced block

namespace Session

variable {σ : Type} [DiagnosticSink σ]

/-- Every answer of every run is built. -/
theorem built_of_result {settings : Settings} {sink : σ} {calls : List Call} {feature : Feature}
    (h : ((start settings sink).run calls).result = .ok (some feature)) : feature.Built := by
  obtain ⟨_, _, _, -, -, ⟨settled, hfinish⟩, -⟩ := madeFrom_of_result h
  rw [hfinish]
  exact FeatureDraft.built_finish _ _ settled _

/-- An answer is given at some point of the run. -/
theorem exists_run_of_mem_results {session : Session σ} {calls : List Call}
    {answer : Except BuildError (Option Feature)} (h : answer ∈ session.results calls) :
    ∃ before, (session.run before).result = answer := by
  induction calls generalizing session with
  | nil => exact nomatch h
  | cons c calls ih =>
    -- An answer to a later call is found in the run from the session behind this one.
    have hlater : answer ∈ (session.call c).session.results calls →
        ∃ before, (session.run before).result = answer := by
      intro hrest
      obtain ⟨before, hbefore⟩ := ih hrest
      exact ⟨c :: before, hbefore⟩
    cases c with
    | event event => exact hlater h
    | result =>
      rcases List.mem_cons.mp h with rfl | hrest
      · exact ⟨[], rfl⟩
      · exact hlater hrest

/-- **Trees are encoded the same exactly if they are equal.** -/
theorem encode_same_iff {τ : Type} [DiagnosticSink τ] (settings settings' : Settings) (sink : σ)
    (sink' : τ) (calls calls' : List Call) :
    (∀ f g, .ok (some f) ∈ (start settings sink).results calls →
      .ok (some g) ∈ (start settings' sink').results calls' →
      (f.encode.Same g.encode ↔ (f == g) = true)) ∧
    (∀ language head language' steps,
      ¬ (Background.empty language).encode.Same
        (Background.declared head language' steps).encode) ∧
    (∀ text table, ¬ (Argument.docString text).encode.Same (Argument.dataTable table).encode) ∧
    (∀ content location content' location',
      ¬ (DocString.mk content none location).encode.Same
        (DocString.mk content' (some "") location').encode) ∧
    (∀ s o, ¬ (Child.scenario s).encode.Same (Child.outline o).encode) ∧
    ∃ a b : Row, a.encode.Same b.encode ∧ (a == b) = false := by
  refine ⟨?_, ?_, Argument.not_same_docString_dataTable, ?_, Child.not_same_scenario_outline, ?_⟩
  · intro f g hf hg
    -- Each tree is the answer at some point of its run, and so it is built.
    obtain ⟨before, hbefore⟩ := exists_run_of_mem_results hf
    obtain ⟨before', hbefore'⟩ := exists_run_of_mem_results hg
    constructor
    · intro hsame
      rw [Feature.eq_of_same (built_of_result hbefore) (built_of_result hbefore') hsame]
      exact beq_self_eq_true g
    · intro heq
      rw [eq_of_beq heq]
      exact Value.Same.refl g.encode
  · intro language head language' steps hsame
    exact nomatch Background.faithful hsame
  · intro content location content' location' hsame
    exact nomatch DocString.faithful hsame
  · exact Row.exists_same_ne

omit [PatternEngine] in
/-- A declared background without steps is not taken for no background. -/
theorem not_same_with_background :
    let _ : PatternEngine := .sizeLimited
    let opening : Record := { line := 1, keyword := "Feature", name := "" }
    let background : Record := { line := 2, keyword := "Background", name := "" }
    let calls : List Call := [.event (.setLanguage "en"), .event (.openFeature opening), .result]
    let calls' : List Call := [.event (.setLanguage "en"), .event (.openFeature opening),
      .event (.openBackground background), .result]
    ∃ f g, .ok (some f) ∈ (start {} IgnoreErrors.mk).results calls ∧
      .ok (some g) ∈ (start {} IgnoreErrors.mk).results calls' ∧ ¬ f.encode.Same g.encode := by
  intro _ opening background calls calls'
  refine ⟨_, _, List.mem_singleton.mpr rfl, List.mem_singleton.mpr rfl, ?_⟩
  rw [(encode_same_iff {} {} IgnoreErrors.mk IgnoreErrors.mk calls calls').1 _ _
    (List.mem_singleton.mpr rfl) (List.mem_singleton.mpr rfl)]
  decide

end Session
end FeatureTree
