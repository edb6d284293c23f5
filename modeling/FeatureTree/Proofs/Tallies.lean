import FeatureTree.Outcome.Tally
import Mathlib.Data.List.Basic

/-!
# Runs of outcomes

A reporter is told of outcomes one after another, each with subject, cause and remark of its own
types. It hears the reports of all of them in turn: none, one or two for each outcome.

**A tally hears no more of an outcome than whether it passed or failed, and the text of the cause.**
Its two numbers and its texts come from different reports, and still they belong together, because a
failure is never reported without its cause. Whose outcomes they were and what was remarked about
them does not show.
-/

set_option autoImplicit false

namespace FeatureTree

/-! ## Tellings -/

/-- An outcome that is told with a remark, in types of its own. What a reporter asks of the types of
cause and remark is `Tells`. -/
structure Telling (Tells : Type → Type → Type) where
  {Subject Cause Remark : Type}
  tells : Tells Cause Remark
  outcome : Outcome Subject Cause
  remark : Remark

/-- A report in types of its own. -/
structure Heard (Tells : Type → Type → Type) where
  {Cause Remark : Type}
  tells : Tells Cause Remark
  report : Report Cause Remark

/-- A telling of an outcome whose cause has a text. -/
abbrev ShownTelling :=
  Telling fun Cause _ => ToString Cause

namespace Telling

variable {Tells : Type → Type → Type}

def mapSubject {β : Type} (telling : Telling Tells) (f : telling.Subject → β) : Telling Tells :=
  ⟨telling.tells, telling.outcome.mapSubject f, telling.remark⟩

/-- What is heard of an outcome: nothing, that it passed, or that it failed and then why. -/
def heard (telling : Telling Tells) : List (Heard Tells) :=
  match telling.outcome with
  | .unknown _ => []
  | .passed _ => [⟨telling.tells, .passed telling.remark⟩]
  | .failed _ cause =>
    [⟨telling.tells, .failed telling.remark⟩, ⟨telling.tells, .exception cause telling.remark⟩]

def withRemark {ρ : Type} (telling : ShownTelling) (remark : ρ) : ShownTelling :=
  ⟨telling.tells, telling.outcome, remark⟩

/-- The text of the cause, if there is one. -/
def causeText? (telling : ShownTelling) : Option String :=
  haveI := telling.tells
  telling.outcome.cause?.map toString

/-- The outcome without its subject, and with the text of its cause in the cause's place. -/
def shown (telling : ShownTelling) : Outcome Unit String :=
  haveI := telling.tells
  match telling.outcome with
  | .unknown _ => .unknown ()
  | .passed _ => .passed ()
  | .failed _ cause => .failed () (toString cause)

theorem shown_mapSubject {β : Type} (telling : ShownTelling) (f : telling.Subject → β) :
    (telling.mapSubject f).shown = telling.shown := by
  obtain ⟨tells, outcome, remark⟩ := telling
  cases outcome <;> rfl

theorem shown_withRemark {ρ : Type} (telling : ShownTelling) (remark : ρ) :
    (telling.withRemark remark).shown = telling.shown := by
  obtain ⟨tells, outcome, remark'⟩ := telling
  cases outcome <;> rfl

end Telling

/-! ## Any reporter -/

/-- A list that keeps reports keeps those of the outcomes it is told of. -/
theorem Outcome.foldl_describe {α ε ρ : Type} (told : List (Outcome α ε × ρ))
    (log : List (Report ε ρ)) :
    told.foldl (fun log entry => entry.1.describe entry.2 log) log =
      log ++ told.flatMap fun entry => entry.1.reports entry.2 := by
  have hone : ∀ (log : List (Report ε ρ)) (entry : Outcome α ε × ρ),
      entry.1.describe entry.2 log = log ++ entry.1.reports entry.2 := by
    rintro log ⟨outcome, remark⟩
    cases outcome with
    | unknown a => exact (List.append_nil log).symm
    | passed a => rfl
    | failed a cause => exact List.append_assoc log _ _
  simp only [hone, List.foldl_append_eq_append, List.flatMap_def]

namespace Reporter

variable {τ : Type}

/-- The reporter after one more telling. -/
def tell (reporter : τ) (telling : Telling (Reporter τ)) : τ :=
  haveI := telling.tells
  telling.outcome.describe telling.remark reporter

/-- The reporter after one more report. -/
def hear (reporter : τ) (heard : Heard (Reporter τ)) : τ :=
  haveI := heard.tells
  receive reporter heard.report

theorem tell_eq (reporter : τ) (telling : Telling (Reporter τ)) :
    tell reporter telling = telling.heard.foldl hear reporter := by
  obtain ⟨tells, outcome, remark⟩ := telling
  cases outcome <;> rfl

theorem foldl_tell (tellings : List (Telling (Reporter τ))) (reporter : τ) :
    tellings.foldl tell reporter = (tellings.flatMap Telling.heard).foldl hear reporter := by
  rw [List.foldl_flatMap]
  exact congrArg (fun step => tellings.foldl step reporter) (funext₂ tell_eq)

end Reporter

/-! ## Tallies -/

namespace Tally

/-- The tally after one more telling. -/
def tell (tally : Tally) (telling : ShownTelling) : Tally :=
  haveI := telling.tells
  telling.outcome.describe telling.remark tally

theorem tell_eq (tally : Tally) (telling : ShownTelling) :
    tally.tell telling = telling.shown.describe () tally := by
  obtain ⟨tells, outcome, remark⟩ := telling
  cases outcome <;> rfl

/-- Only what is shown of the outcomes counts. -/
theorem foldl_tell (told : List ShownTelling) (tally : Tally) :
    told.foldl tell tally =
      (told.map Telling.shown).foldl (fun tally outcome => outcome.describe () tally) tally := by
  rw [List.foldl_map]
  exact congrArg (fun step => told.foldl step tally) (funext₂ tell_eq)

/-- What one telling adds to a tally. -/
theorem tell_eq_add (tally : Tally) (telling : ShownTelling) :
    tally.tell telling =
      { passed := tally.passed + if telling.outcome.isPassed then 1 else 0
        failed := tally.failed + if telling.outcome.isFailed then 1 else 0
        causes := tally.causes ++ telling.causeText?.toList } := by
  obtain ⟨tells, outcome, remark⟩ := telling
  cases outcome with
  | unknown a | passed a =>
    rw [Tally.mk.injEq]
    exact ⟨rfl, rfl, (List.append_nil _).symm⟩
  | failed a cause => rfl

/-- What a run adds to a tally. -/
theorem foldl_tell_eq_add (told : List ShownTelling) (tally : Tally) :
    told.foldl tell tally =
      { passed := tally.passed + told.countP (·.outcome.isPassed)
        failed := tally.failed + told.countP (·.outcome.isFailed)
        causes := tally.causes ++ told.filterMap Telling.causeText? } := by
  induction told generalizing tally with
  | nil => exact (congrArg (Tally.mk _ _) (List.append_nil _)).symm
  | cons telling told ih =>
    -- A failure puts its text in front of those of the outcomes behind it.
    have hcauses : (telling :: told).filterMap Telling.causeText? =
        telling.causeText?.toList ++ told.filterMap Telling.causeText? := by
      cases htext : telling.causeText? with
      | none => rw [List.filterMap_cons_none htext, Option.toList_none, List.nil_append]
      | some text => rw [List.filterMap_cons_some htext, Option.toList_some, List.singleton_append]
    rw [List.foldl_cons, ih, tell_eq_add, List.countP_cons, List.countP_cons, hcauses,
      List.append_assoc, Tally.mk.injEq]
    refine ⟨?_, ?_, rfl⟩
    · rw [Nat.add_assoc, Nat.add_comm (List.countP _ _)]
    · rw [Nat.add_assoc, Nat.add_comm (List.countP _ _)]

/-- Every failure comes with the text of its cause. -/
theorem length_causes (told : List ShownTelling) :
    (told.filterMap Telling.causeText?).length = told.countP (·.outcome.isFailed) := by
  rw [List.length_filterMap_eq_countP]
  refine List.countP_congr fun telling _ => ?_
  obtain ⟨tells, outcome, remark⟩ := telling
  cases outcome <;> rfl

theorem map_shown_mapIdx {f : Nat → ShownTelling → ShownTelling}
    (h : ∀ i telling, (f i telling).shown = telling.shown) (told : List ShownTelling) :
    (told.mapIdx f).map Telling.shown = told.map Telling.shown := by
  refine List.ext_getElem? fun i => ?_
  rw [List.getElem?_map, List.getElem?_mapIdx, Option.map_map, List.getElem?_map]
  exact congrArg (told[i]?.map ·) (funext (h i))

/-- Tellings that show the same outcomes make the same tally. -/
theorem foldl_tell_mapIdx {f : Nat → ShownTelling → ShownTelling}
    (h : ∀ i telling, (f i telling).shown = telling.shown) (told : List ShownTelling)
    (tally : Tally) : (told.mapIdx f).foldl tell tally = told.foldl tell tally := by
  rw [foldl_tell, map_shown_mapIdx h, foldl_tell]

theorem foldl_tell_empty (told : List ShownTelling) :
    told.foldl tell {} =
      { passed := told.countP (·.outcome.isPassed)
        failed := told.countP (·.outcome.isFailed)
        causes := told.filterMap Telling.causeText? } := by
  rw [foldl_tell_eq_add, Nat.zero_add, Nat.zero_add, List.nil_append]

theorem isSuccess_foldl_tell (told : List ShownTelling) :
    (told.foldl tell {}).isSuccess = told.all fun telling => !telling.outcome.isFailed := by
  rw [foldl_tell_empty, Bool.eq_iff_iff, isSuccess, beq_iff_eq]
  show List.countP _ told = 0 ↔ _
  rw [List.countP_eq_zero, List.all_eq_true]
  exact forall₂_congr fun telling _ => by rw [Bool.not_eq_true', Bool.not_eq_true]

/-- **What a run of outcomes tells.** At every point of the run a tally has counted the outcomes that
passed and those that failed, and has the text of each failure's cause, in their order; an outcome
that is unknown leaves it as it was. Other subjects and other remarks make the same tally. A reporter
of any other kind hears the reports of all the outcomes, one outcome after the other. -/
theorem tally_of_run (told : List ShownTelling) :
    (∀ n,
        let heard := told.take n
        let tally := heard.foldl tell {}
        tally.passed = heard.countP (·.outcome.isPassed) ∧
          tally.failed = heard.countP (·.outcome.isFailed) ∧
          tally.causes = heard.filterMap Telling.causeText? ∧
          tally.causes.length = tally.failed ∧
          tally.isSuccess = heard.all fun telling => !telling.outcome.isFailed) ∧
      (∀ {α ε ρ : Type} [ToString ε] (a : α) (remark : ρ) (tally : Tally),
        (Outcome.unknown a : Outcome α ε).describe remark tally = tally) ∧
      (∀ (β : Nat → ShownTelling → Type) (f : ∀ i telling, telling.Subject → β i telling)
        (tally : Tally),
        (told.mapIdx fun i telling => telling.mapSubject (f i telling)).foldl tell tally =
          told.foldl tell tally) ∧
      (∀ (ρ : Nat → ShownTelling → Type) (remark : ∀ i telling, ρ i telling) (tally : Tally),
        (told.mapIdx fun i telling => telling.withRemark (remark i telling)).foldl tell tally =
          told.foldl tell tally) ∧
      (∀ {τ : Type} (tellings : List (Telling (Reporter τ))) (reporter : τ),
        tellings.foldl Reporter.tell reporter =
          (tellings.flatMap Telling.heard).foldl Reporter.hear reporter) ∧
      ∀ {α ε ρ : Type} (told : List (Outcome α ε × ρ)) (log : List (Report ε ρ)),
        told.foldl (fun log entry => entry.1.describe entry.2 log) log =
          log ++ told.flatMap fun entry =>
            match entry.1 with
            | .unknown _ => []
            | .passed _ => [.passed entry.2]
            | .failed _ cause => [.failed entry.2, .exception cause entry.2] := by
  refine ⟨?_, fun _ _ _ => rfl, ?_, ?_, Reporter.foldl_tell, ?_⟩
  · intro n heard tally
    have htally : tally = _ := foldl_tell_empty heard
    refine ⟨?_, ?_, ?_, ?_, isSuccess_foldl_tell heard⟩
    · rw [htally]
    · rw [htally]
    · rw [htally]
    · rw [htally]
      exact length_causes heard
  · intro β f tally
    exact foldl_tell_mapIdx (fun i telling => telling.shown_mapSubject (f i telling)) told tally
  · intro ρ remark tally
    exact foldl_tell_mapIdx
      (fun i telling => telling.shown_withRemark (remark i telling)) told tally
  · intro α ε ρ told log
    rw [Outcome.foldl_describe]
    refine congrArg (log ++ ·) (List.flatMap_congr fun entry _ => ?_)
    obtain ⟨outcome, remark⟩ := entry
    cases outcome <;> rfl

end Tally
end FeatureTree
