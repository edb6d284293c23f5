import FeatureTree.Proofs.Arrivals

/-!
# Where the cursor can be

The cursor is a position in a list that goes on growing, or stands for a background that need not be
there. **In every session it is at something that is there, and if that is a child, at the last one.**
So a lookup through the cursor finds what it looks for, and what it finds is changed at the end of
the list.
-/

set_option autoImplicit false

namespace FeatureTree

/-- What the cursor can be at, for a given open feature. -/
inductive Cursor.Fits : Option FeatureDraft → Option Cursor → Prop
  | noFeature : Fits none none
  | nowhere {draft : FeatureDraft} : Fits (some draft) none
  | background {draft : FeatureDraft} {background : BackgroundDraft}
      (declared : draft.background = some background) : Fits (some draft) (some .background)
  | child {draft : FeatureDraft} {front : List ChildDraft} {last : ChildDraft}
      (children : draft.children = front ++ [last]) :
      Fits (some draft) (some (.child front.length))

/-- What is under the cursor stays there when it grows. -/
theorem Cursor.Fits.extend [PatternEngine] {draft : FeatureDraft} {cursor : Option Cursor}
    (h : Fits (some draft) cursor) (body : List Arrival) :
    Fits (some (draft.extend cursor body)) cursor := by
  -- By what the cursor is at, for in each case `extend` touches another part of the draft.
  cases h with
  | nowhere => exact .nowhere
  | @background _ background declared =>
    have hbackground : (draft.extend (some .background) body).background =
        some (background.extend body) := by
      unfold FeatureDraft.extend
      rw [declared]
      rfl
    exact .background hbackground
  | @child _ front last children =>
    have hchildren : (draft.extend (some (.child front.length)) body).children =
        front ++ [last.extend body] := by
      unfold FeatureDraft.extend
      rw [children]
      exact modify_append_length front last _
    exact .child hchildren

namespace Session

variable {σ : Type}

def CursorFits (session : Session σ) : Prop :=
  Cursor.Fits session.draft session.cursor

theorem cursorFits_start (settings : Settings) (sink : σ) : (start settings sink).CursorFits :=
  .noFeature

/-- A child is put at the end of the list and the cursor at its position, so it fits whatever was
before. -/
theorem CursorFits.openChild {session : Session σ} (child : ChildDraft) (draft : FeatureDraft) :
    (session.openChild child draft).session.CursorFits :=
  .child rfl

/-- The first background is the one under the cursor. A second is refused and takes the cursor away,
so that its steps go nowhere and not to the first. -/
theorem CursorFits.openBackground {session : Session σ} {draft : FeatureDraft}
    (hd : session.draft = some draft) (record : Record) :
    (session.openBackground record draft).session.CursorFits := by
  unfold Session.openBackground
  cases draft.background with
  | none => exact .background rfl
  | some background =>
    show Cursor.Fits session.draft none
    rw [hd]
    exact .nowhere

theorem CursorFits.inFeature {session : Session σ} (h : session.CursorFits) {event : Event}
    {line : Nat} {react : FeatureDraft → Reaction σ}
    (hreact : ∀ draft, session.draft = some draft → (react draft).session.CursorFits) :
    (session.inFeature event line react).session.CursorFits := by
  unfold Session.inFeature
  split
  · exact h
  · next draft hd => exact hreact draft hd

/-- An answer may write a background into the draft that was not declared. The children stay, and a
background that the cursor is at stays as well. -/
theorem CursorFits.settle {session : Session σ} (h : session.CursorFits) :
    session.settle.session.CursorFits := by
  unfold Session.settle
  split
  · next language draft _ hd =>
    unfold CursorFits at h ⊢
    rw [hd] at h
    -- Settling looks at the background alone, and the invariant at what the cursor is at.
    cases hc : session.cursor with
    | none => exact .nowhere
    | some cursor =>
      rw [hc] at h
      cases h with
      | background declared => exact .background declared
      | child children => exact .child children
  · exact h

variable [PatternEngine] [DiagnosticSink σ]

/-- All events that open nothing at once: in the draft they are an `extend` under the cursor, where
the cursor does not move. -/
theorem CursorFits.handle_of_not_opens {session : Session σ} (h : session.CursorFits)
    {event : Event} (hf : event.opensFeature = false) (hc : event.opensContainer = false) :
    (session.handle event).session.CursorFits := by
  obtain ⟨hcursor, hdraft⟩ := Session.handle_of_not_opens session hf hc
  unfold CursorFits at h ⊢
  rw [hcursor, hdraft]
  cases hd : session.draft with
  | none =>
    rw [hd] at h
    exact h
  | some draft =>
    rw [hd] at h
    exact h.extend _

/-- What one event preserves. Those that open something place the cursor anew; the others leave it.
-/
theorem CursorFits.handle {session : Session σ} (h : session.CursorFits) (event : Event) :
    (session.handle event).session.CursorFits := by
  cases event with
  | openFeature => exact .nowhere
  | openBackground record =>
    exact h.inFeature fun draft hd => CursorFits.openBackground hd record
  | openScenario | openOutline => exact h.inFeature fun draft _ => CursorFits.openChild _ draft
  | setPath | setLanguage | endOfDocument | syntaxError | addExamples | addStep =>
    exact h.handle_of_not_opens rfl rfl

theorem CursorFits.call {session : Session σ} (h : session.CursorFits) (c : Call) :
    (session.call c).session.CursorFits := by
  cases c with
  | event event => exact h.handle event
  | result => exact h.settle

/-- What a run preserves, so that every session reached from a new one has a cursor that fits. -/
theorem CursorFits.run {session : Session σ} (h : session.CursorFits) (calls : List Call) :
    (session.run calls).CursorFits := by
  induction calls generalizing session with
  | nil => exact h
  | cons c calls ih => exact ih (h.call c)

end Session
end FeatureTree
