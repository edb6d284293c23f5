import FeatureTree.Proofs.Assembly
import FeatureTree.Proofs.Trimming

/-!
# What the nodes of a tree agree on

A tree is made in one go, but from records that arrived one by one and on a background that may have
been settled long before. **All the same, its nodes agree:** they are in the language that was set
last, also if it was set after their records had arrived, and every child has the background and the
tags of the feature, also if it was opened first. Only the background may be in an older language,
and only if a tree was handed out before.

What a node does not share it has from its record, as it was written. The one exception is the
feature, which loses the blanks before its name and behind its description.
-/

set_option autoImplicit false

namespace FeatureTree

/-! ## Agreement -/

/-- The comment is that of the record, line by line. -/
def Head.HasComment (head : Head) : Prop :=
  head.comment.text = "\n".intercalate (head.record.comments.map RawComment.value)

/-- The head says what its record says. -/
structure Head.Verbatim (head : Head) : Prop where
  keyword : head.keyword = head.record.keyword
  comment : head.HasComment
  name : head.name = head.record.name
  description : head.description = head.record.description

/-- The head says what its record says, but for blanks at two ends. -/
structure Head.VerbatimInside (head : Head) : Prop where
  keyword : head.keyword = head.record.keyword
  comment : head.HasComment
  name : Text.LosesStart head.record.name head.name
  description : Text.LosesEnd head.record.description head.description

structure Background.Coherent (background : Background) : Prop where
  head : ∀ head ∈ background.head?, head.Verbatim
  steps : ∀ step ∈ background.steps, step.language = background.language

structure ScenarioHead.Coherent (feature : Feature) (head : ScenarioHead) : Prop where
  verbatim : head.toHead.Verbatim
  language : head.language = feature.language
  background : head.background = feature.background
  featureTags : head.featureTags = feature.tags
  tags : head.tags = .ofRaw head.location head.record.tags

inductive Child.Coherent (feature : Feature) : Child → Prop
  | scenario {s : Scenario} (head : s.toScenarioHead.Coherent feature)
      (steps : ∀ step ∈ s.steps, step.language = feature.language) :
      Child.Coherent feature (.scenario s)
  | outline {o : Outline} (head : o.toScenarioHead.Coherent feature)
      (steps : ∀ step ∈ o.steps, step.language = feature.language)
      (expanded : ∀ expansion ∈ o.expansions, ∀ step ∈ expansion.steps,
        step.language = feature.language)
      (tables : ∀ table ∈ o.tables, table.toHead.Verbatim) :
      Child.Coherent feature (.outline o)

/-- The nodes of the tree agree with each other and with their records. -/
structure Feature.Coherent (feature : Feature) : Prop where
  head : feature.toHead.VerbatimInside
  tags : feature.tags = .ofRaw feature.location feature.record.tags
  background : feature.background.Coherent
  children : ∀ child ∈ feature.children, child.Coherent feature

/-! ## Nodes that are made from records -/

theorem Head.verbatim_ofPlaced (placed : Placed) : (Head.ofPlaced placed).Verbatim :=
  ⟨rfl, rfl, rfl, rfl⟩

theorem Head.verbatimInside_trimmed {head : Head} (h : head.Verbatim) :
    head.trimmed.VerbatimInside where
  keyword := h.keyword
  comment := h.comment
  name := h.name ▸ Text.losesStart_trimStart head.name
  description := h.description ▸ Text.losesEnd_trimEnd head.description

/-- An expanded step is in the language of its template. -/
theorem Outline.language_of_mem_expansions {outline : Outline} {language : Language}
    (h : ∀ step ∈ outline.steps, step.language = language) :
    ∀ expansion ∈ outline.expansions, ∀ step ∈ expansion.steps, step.language = language := by
  intro expansion hexpansion step hstep
  obtain ⟨table, -, hofRow⟩ := List.mem_flatMap.mp hexpansion
  obtain ⟨row, -, rfl⟩ := List.mem_map.mp hofRow
  obtain ⟨template, htemplate, rfl⟩ := List.mem_map.mp hstep
  exact h template htemplate

theorem BackgroundDraft.coherent_finish (draft : BackgroundDraft) (language : Language) :
    (draft.finish language).Coherent where
  head := by
    rintro head ⟨⟩
    exact Head.verbatim_ofPlaced draft.placed
  steps := List.forall_mem_map.mpr fun _ _ => rfl

section Unsettled

variable {draft : FeatureDraft} (h : draft.settled = none) (language : Language)
include h

/-- A background that is not settled yet is made for the question at hand, in the language of the
question. -/
theorem FeatureDraft.language_resolve : (draft.resolve language).language = language := by
  unfold resolve
  rw [h]
  cases draft.background <;> rfl

theorem FeatureDraft.coherent_resolve : (draft.resolve language).Coherent := by
  unfold resolve
  rw [h]
  cases draft.background with
  | none => exact ⟨fun _ h => (nomatch h), fun _ h => (nomatch h)⟩
  | some background => exact background.coherent_finish language

end Unsettled

theorem ChildDraft.coherent_head (feature : Feature) (draft : ChildDraft) :
    (draft.head feature.background feature.language feature.tags).Coherent feature where
  verbatim := Head.verbatim_ofPlaced draft.placed
  language := rfl
  background := rfl
  featureTags := rfl
  tags := rfl

/-- The background is the one part that may be older than the question, so what there is to say of
it is asked for. -/
theorem FeatureDraft.coherent_finish [PatternEngine] (placed : Placed) (list : List Arrival)
    (settled : Option Background) (language : Language)
    (h : ((ofArrivals placed list settled).resolve language).Coherent) :
    ((ofArrivals placed list settled).finish language).Coherent where
  head := Head.verbatimInside_trimmed (Head.verbatim_ofPlaced placed)
  tags := rfl
  background := h
  children := by
    intro child hchild
    obtain ⟨draft, hdraft, rfl⟩ := List.mem_map.mp hchild
    -- Both kinds of children are made from the draft now, whenever their records came.
    rcases cases_of_mem_children hdraft with ⟨_, _, rfl⟩ | ⟨_, steps, blocks, rfl⟩
    · exact .scenario (ChildDraft.coherent_head _ (.scenario _ _))
        (List.forall_mem_map.mpr fun _ _ => rfl)
    · have hsteps : ∀ step ∈ steps.map fun source =>
          (⟨.ofPlaced source language⟩ : OutlineStep), step.language = language :=
        List.forall_mem_map.mpr fun _ _ => rfl
      exact .outline (ChildDraft.coherent_head _ (.outline _ _ _)) hsteps
        (Outline.language_of_mem_expansions hsteps)
        -- The tables are as old as their blocks, and no language is in them.
        (List.forall_mem_map.mpr fun block _ => Head.verbatim_ofPlaced block)

theorem Feature.MadeFrom.coherent [PatternEngine] {placed : Placed} {since : List Arrival}
    {feature : Feature} (h : feature.MadeFrom placed since) : feature.Coherent := by
  obtain ⟨⟨settled, hfinish⟩, early, language, -, hbackground⟩ := h
  have hcoherent : feature.background.Coherent := by
    rw [hbackground]
    exact FeatureDraft.coherent_resolve rfl language
  rw [hfinish] at hcoherent ⊢
  exact FeatureDraft.coherent_finish placed since settled _ hcoherent

namespace Session

variable [PatternEngine] {σ : Type} [DiagnosticSink σ]

/-- **The trees of a session are coherent.** They are in the language set last; and so is the
background, if no tree was handed out since the feature opened. -/
theorem coherent_run_start {settings : Settings} {sink : σ} {calls : List Call} {feature : Feature}
    (h : ((start settings sink).run calls).result = .ok (some feature)) :
    (languages calls).getLast? = some feature.language ∧
      feature.Coherent ∧
      ∀ before record after, calls = before ++ .event (.openFeature record) :: after →
        OpensNoFeature after →
        ¬ ((start settings sink).run (before ++ [.event (.openFeature record)])).Answers after →
        feature.background.language = feature.language ∧
          ∀ step ∈ feature.background.steps, step.language = feature.language := by
  obtain ⟨_, _, _, -, -, hmade⟩ := madeFrom_of_result h
  refine ⟨getLast?_languages_of_result h, hmade.coherent, ?_⟩
  rintro before record after rfl hafter hnone
  have hlanguage : feature.background.language = feature.language := by
    rw [background_of_not_answers hafter hnone h]
    exact FeatureDraft.language_resolve rfl _
  exact ⟨hlanguage, fun step hstep => (hmade.coherent.background.steps step hstep).trans hlanguage⟩

omit [PatternEngine] in
/-- A language that is set behind the nodes is theirs. -/
theorem coherent_under_late_language :
    let _ : PatternEngine := .sizeLimited
    let opening : Record := { line := 1, keyword := "Feature", name := " Cart " }
    let background : Record := { line := 3, keyword := "Background", name := "" }
    let scenario : Record := { line := 2, keyword := "Scenario", name := "" }
    let after : List Call := [.event (.openScenario scenario), .event (.openBackground background),
      .event (.setLanguage "de")]
    let calls : List Call := .event (.setLanguage "en") :: .event (.openFeature opening) :: after
    ∃ tree, ((start {} IgnoreErrors.mk).run calls).result = .ok (some tree) ∧
      tree.name = "Cart " ∧ tree.Coherent ∧ tree.background.language = ⟨"de"⟩ := by
  intro _ opening background scenario after calls
  have hresult : ((start {} IgnoreErrors.mk).run calls).result = .ok (some _) := rfl
  obtain ⟨hlanguage, hcoherent, hbackground⟩ := coherent_run_start hresult
  have hafter : OpensNoFeature after := opensNoFeature_iff.mpr (by decide)
  have hnone : ¬ ((start {} IgnoreErrors.mk).run
      ([.event (.setLanguage "en")] ++ [.event (.openFeature opening)])).Answers after := by
    rintro ⟨asked, rest, _, hsplit, -⟩
    have hasked : Call.result ∈ after := hsplit ▸ List.mem_append_right asked List.mem_cons_self
    exact absurd hasked (by decide)
  have hsame := (hbackground [.event (.setLanguage "en")] opening after rfl hafter hnone).1
  exact ⟨_, hresult, by decide, hcoherent, hsame.trans (Option.some.inj hlanguage).symm⟩

end Session
end FeatureTree
