import FeatureTree.Proofs.Acceptance
import FeatureTree.Proofs.Isolation
import FeatureTree.Proofs.Replay
import Mathlib.Computability.RegularExpressions

/-!
# The protocol of a reader

A well-behaved reader reports a document in a fixed order: where it comes from, the feature, then its
background if there is one, then scenarios and outlines, each followed by what belongs to it. This
order is a regular expression over the names of events. **A session, whatever it has seen before,
drops nothing of what is told in this order,** and a document that is replayed is told so. All the
warnings there can be are then about examples that do not add up, and about backgrounds of rules.
-/

set_option autoImplicit false

namespace FeatureTree

/-! ## The grammar -/

namespace Protocol

open RegularExpression (char)

def steps : RegularExpression String :=
  (char "add_step").star

def background : RegularExpression String :=
  char "open_background" * steps

def scenario : RegularExpression String :=
  char "open_scenario" * steps

/-- The examples of an outline, of which there are some. -/
def blocks : RegularExpression String :=
  char "add_examples" * (char "add_examples").star

def outline : RegularExpression String :=
  char "open_scenario_outline" * steps * blocks

def opening : RegularExpression String :=
  char "set_path" * char "set_language" * char "open_feature"

def document : RegularExpression String :=
  opening * (1 + background) * (scenario + outline).star * char "end_of_document"

/-- The events come in the order of the grammar. -/
def Follows (grammar : RegularExpression String) (events : List Event) : Prop :=
  events.map Event.name ∈ grammar.matches'

variable {first second grammar : RegularExpression String} {events : List Event}

/-- The one event of a name follows the letter that is its name. -/
theorem follows_char (event : Event) : Follows (char event.name) [event] :=
  rfl

/-- What follows a product is put together from what follows its factors; documents are shown to
follow the grammar from these parts. -/
theorem Follows.append {front back : List Event} (hfront : Follows first front)
    (hback : Follows second back) : Follows (first * second) (front ++ back) := by
  unfold Follows
  rw [RegularExpression.matches'_mul, List.map_append]
  exact Language.append_mem_mul hfront hback

theorem Follows.cons (event : Event) (h : Follows grammar events) :
    Follows (char event.name * grammar) (event :: events) :=
  (follows_char event).append h

/-- Parts that each follow the grammar follow its repetition. -/
theorem Follows.star {α : Type} {parts : List α} {f : α → List Event}
    (h : ∀ part ∈ parts, Follows grammar (f part)) : Follows grammar.star (parts.flatMap f) := by
  unfold Follows
  rw [RegularExpression.matches'_star, Language.mem_kstar]
  refine ⟨parts.map fun part => (f part).map Event.name, ?_, ?_⟩
  · rw [List.map_flatMap, List.flatMap_def]
  · intro names hnames
    obtain ⟨part, hpart, rfl⟩ := List.mem_map.mp hnames
    exact h part hpart

/-! ### Taking apart -/

theorem eq_of_follows_char {name : String} (h : Follows (char name) events) :
    ∃ event : Event, events = [event] ∧ event.name = name := by
  obtain ⟨event, rfl, rfl⟩ := List.map_eq_singleton_iff.mp h
  exact ⟨event, rfl, rfl⟩

/-- The way back. A word of names is split by the library, and the events are split where their
names are. -/
theorem eq_append_of_follows_mul (h : Follows (first * second) events) :
    ∃ front back, events = front ++ back ∧ Follows first front ∧ Follows second back := by
  obtain ⟨a, ha, b, hb, hab⟩ := Language.mem_mul.mp h
  obtain ⟨front, back, rfl, rfl, rfl⟩ := List.map_eq_append_iff.mp hab.symm
  exact ⟨front, back, rfl, ha, hb⟩

/-- A repetition is taken apart into its rounds, by induction on the words of the names. -/
theorem eq_flatten_of_follows_star (h : Follows grammar.star events) :
    ∃ parts : List (List Event), events = parts.flatten ∧ ∀ part ∈ parts, Follows grammar part := by
  obtain ⟨names, hnames, hall⟩ := Language.mem_kstar.mp h
  induction names generalizing events with
  | nil =>
    rw [List.map_eq_nil_iff.mp hnames]
    exact ⟨[], rfl, fun _ hpart => nomatch hpart⟩
  | cons first names ih =>
    obtain ⟨hfirst, hrest⟩ := List.forall_mem_cons.mp hall
    obtain ⟨front, back, rfl, rfl, hback⟩ := List.map_eq_append_iff.mp hnames
    obtain ⟨parts, rfl, hparts⟩ := ih ⟨names, hback, hrest⟩ hback hrest
    exact ⟨front :: parts, rfl, List.forall_mem_cons.mpr ⟨hfirst, hparts⟩⟩

theorem or_of_follows_add (h : Follows (first + second) events) :
    Follows first events ∨ Follows second events :=
  h

theorem isSome_step?_of_name {event : Event} (h : event.name = "add_step") :
    event.step?.isSome := by
  cases event with
  | addStep => rfl
  | _ => simp [Event.name] at h

theorem isSome_block?_of_name {event : Event} (h : event.name = "add_examples") :
    event.block?.isSome := by
  cases event with
  | addExamples => rfl
  | _ => simp [Event.name] at h

theorem mem_of_follows_star_char {name : String} (h : Follows (char name).star events) :
    ∀ event ∈ events, event.name = name := by
  obtain ⟨parts, rfl, hparts⟩ := eq_flatten_of_follows_star h
  intro event hevent
  obtain ⟨part, hpart, hmem⟩ := List.mem_flatten.mp hevent
  obtain ⟨only, rfl, hname⟩ := eq_of_follows_char (hparts part hpart)
  rw [List.mem_singleton.mp hmem]
  exact hname

theorem step_of_follows_steps (h : Follows steps events) :
    ∀ event ∈ events, event.step?.isSome :=
  fun event hevent => isSome_step?_of_name (mem_of_follows_star_char h event hevent)

/-- A document opens with the three events that `Session.opening` has. -/
theorem eq_of_follows_opening (h : Follows opening events) :
    ∃ path code record, events = [.setPath path, .setLanguage code, .openFeature record] := by
  obtain ⟨_, _, rfl, h, hfeature⟩ := eq_append_of_follows_mul h
  obtain ⟨_, _, rfl, hpath, hlanguage⟩ := eq_append_of_follows_mul h
  -- Each of the three is known by its name, and no other event has it.
  obtain ⟨first, rfl, hfirst⟩ := eq_of_follows_char hpath
  obtain ⟨second, rfl, hsecond⟩ := eq_of_follows_char hlanguage
  obtain ⟨third, rfl, hthird⟩ := eq_of_follows_char hfeature
  cases first with
  | setPath path =>
    cases second with
    | setLanguage code =>
      cases third with
      | openFeature record => exact ⟨path, code, record, rfl⟩
      | _ => simp [Event.name] at hthird
    | _ => simp [Event.name] at hsecond
  | _ => simp [Event.name] at hfirst

theorem eq_of_follows_endOfDocument (h : Follows (char "end_of_document") events) :
    events = [.endOfDocument] := by
  obtain ⟨event, rfl, hname⟩ := eq_of_follows_char h
  cases event with
  | endOfDocument => rfl
  | _ => simp [Event.name] at hname

/-- The three kinds of sections are taken apart in the same way: the opening by its name, and of the
body only what kind of events it has. -/
theorem eq_of_follows_background (h : Follows background events) :
    ∃ record body, events = .openBackground record :: body ∧
      ∀ event ∈ body, event.step?.isSome := by
  obtain ⟨front, body, rfl, hfront, hbody⟩ := eq_append_of_follows_mul h
  obtain ⟨event, rfl, hname⟩ := eq_of_follows_char hfront
  cases event with
  | openBackground record => exact ⟨record, body, rfl, step_of_follows_steps hbody⟩
  | _ => simp [Event.name] at hname

theorem eq_of_follows_scenario (h : Follows scenario events) :
    ∃ record body, events = .openScenario record :: body ∧
      ∀ event ∈ body, event.step?.isSome := by
  obtain ⟨front, body, rfl, hfront, hbody⟩ := eq_append_of_follows_mul h
  obtain ⟨event, rfl, hname⟩ := eq_of_follows_char hfront
  cases event with
  | openScenario record => exact ⟨record, body, rfl, step_of_follows_steps hbody⟩
  | _ => simp [Event.name] at hname

/-- In an outline the order of steps and examples is of no matter for what follows, so it is given
up here. -/
theorem eq_of_follows_outline (h : Follows outline events) :
    ∃ record body, events = .openOutline record :: body ∧
      ∀ event ∈ body, event.step?.isSome ∨ event.block?.isSome := by
  obtain ⟨_, blocks, rfl, hopened, hblocks⟩ := eq_append_of_follows_mul h
  obtain ⟨front, body, rfl, hfront, hbody⟩ := eq_append_of_follows_mul hopened
  obtain ⟨_, more, rfl, hblock, hmore⟩ := eq_append_of_follows_mul hblocks
  obtain ⟨event, rfl, hopening⟩ := eq_of_follows_char hfront
  obtain ⟨block, rfl, hname⟩ := eq_of_follows_char hblock
  cases event with
  | openOutline record =>
    -- Steps, the block that has to be there, and what more blocks there are.
    refine ⟨record, body ++ ([block] ++ more), rfl, ?_⟩
    intro event hevent
    rcases List.mem_append.mp hevent with hstep | hrest
    · exact .inl (step_of_follows_steps hbody event hstep)
    · rcases List.mem_append.mp hrest with hone | hother
      · rw [List.mem_singleton.mp hone]
        exact .inr (isSome_block?_of_name hname)
      · exact .inr (isSome_block?_of_name (mem_of_follows_star_char hmore event hother))
  | _ => simp [Event.name] at hopening

end Protocol

/-! ## Told in order, nothing is refused -/

namespace Session

variable [PatternEngine] {σ : Type} [DiagnosticSink σ]

/-- Each of the events is for a place, and finds it when its turn comes. -/
def Keeps : Session σ → List Event → Prop
  | _, [] => True
  | session, event :: events =>
    event.place?.isSome ∧ ¬ session.Refuses event ∧ (session.handle event).session.Keeps events

/-- Events are kept one after the other if the second part is kept where the first has led. -/
theorem Keeps.append {session : Session σ} {front back : List Event} (hfront : session.Keeps front)
    (hback : (session.run (front.map Call.event)).Keeps back) : session.Keeps (front ++ back) := by
  induction front generalizing session with
  | nil => exact hback
  | cons event front ih => exact ⟨hfront.1, hfront.2.1, ih hfront.2.2 hback⟩

/-- Being kept goes from the front, so it holds of every front part. -/
theorem Keeps.left {session : Session σ} {front back : List Event}
    (h : session.Keeps (front ++ back)) : session.Keeps front := by
  induction front generalizing session with
  | nil => trivial
  | cons event front ih => exact ⟨h.1, h.2.1, ih h.2.2⟩

/-- What is said about events that are kept is what there is to say about each. -/
theorem Keeps.notices {session : Session σ} {events : List Event} (h : session.Keeps events)
    (hfits : session.CursorFits) :
    session.notices (events.map Call.event) = events.flatMap (Event.remarks session.path) := by
  induction events generalizing session with
  | nil => rfl
  | cons event events ih =>
    obtain ⟨hplace, haccepts, hrest⟩ := h
    -- Only events with records are meant for places, so the path stays the same all through.
    have hrecord : event.record?.isSome := by
      cases event with
      | setPath | setLanguage | endOfDocument | syntaxError => exact Bool.noConfusion hplace
      | _ => rfl
    have hone : (session.handle event).notices = event.remarks session.path := by
      cases hfits.reacts hplace with
      | taken _ _ _ _ _ notices => exact notices
      | lost refuses => exact absurd refuses haccepts
    show (session.handle event).notices ++ (session.handle event).session.notices _ = _
    rw [ih hrest (hfits.handle event), hone, (handle_surroundings hrecord).path, List.flatMap_cons]

/-- What holds of a session and is kept up by each part of the events is kept up by all of them. -/
theorem keeps_flatten {holds : Session σ → Prop} {parts : List (List Event)}
    (hpart : ∀ part ∈ parts, ∀ session : Session σ, holds session →
      session.Keeps part ∧ holds (session.run (part.map Call.event)))
    {session : Session σ} (h : holds session) :
    session.Keeps parts.flatten ∧ holds (session.run (parts.flatten.map Call.event)) := by
  induction parts generalizing session with
  | nil => exact ⟨trivial, h⟩
  | cons part parts ih =>
    obtain ⟨hfirst, hrest⟩ := List.forall_mem_cons.mp hpart
    obtain ⟨hkeeps, hafter⟩ := hfirst session h
    obtain ⟨hkeeps', hafter'⟩ := ih hrest hafter
    refine ⟨hkeeps.append hkeeps', ?_⟩
    rw [List.flatten_cons, List.map_append, run_append]
    exact hafter'

/-- The same for single events, each a part of its own. -/
theorem keeps_each {holds : Session σ → Prop} {body : List Event}
    (hevent : ∀ event ∈ body, ∀ session : Session σ, holds session →
      event.place?.isSome ∧ ¬ session.Refuses event ∧ holds (session.handle event).session)
    {session : Session σ} (h : holds session) :
    session.Keeps body ∧ holds (session.run (body.map Call.event)) := by
  rw [← List.flatMap_singleton' body]
  refine keeps_flatten ?_ h
  intro part hpart session h
  obtain ⟨event, he, rfl⟩ := List.mem_map.mp hpart
  obtain ⟨hplace, haccepts, hafter⟩ := hevent event he session h
  exact ⟨⟨hplace, haccepts, trivial⟩, hafter⟩

/-! ### What has to be open -/

/-- Something is open that takes steps. -/
def TakesSteps (session : Session σ) : Prop :=
  session.draft.isSome ∧ session.cursor.isSome

/-- An outline is open, which takes steps and examples. -/
def TakesExamples (session : Session σ) : Prop :=
  session.currentChild?.any ChildDraft.isOutline

omit [PatternEngine] [DiagnosticSink σ] in
theorem TakesExamples.takesSteps {session : Session σ} (h : session.TakesExamples) :
    session.TakesSteps := by
  unfold TakesExamples currentChild? at h
  split at h
  · next hd hc => exact ⟨by rw [hd]; rfl, by rw [hc]; rfl⟩
  · exact Bool.noConfusion h

omit [PatternEngine] [DiagnosticSink σ] in
/-- A step is refused for want of a feature or of a container, and both are there. -/
theorem TakesSteps.not_refuses {session : Session σ} (h : session.TakesSteps) (record : Record) :
    ¬ session.Refuses (.addStep record) := by
  rintro (hnone | hnone)
  · exact Option.isSome_iff_ne_none.mp h.1 hnone
  · exact Option.isSome_iff_ne_none.mp h.2 hnone

/-- One step is kept, and what took it takes the next. -/
theorem TakesSteps.step {session : Session σ} (h : session.TakesSteps) {event : Event}
    (hevent : event.step?.isSome) :
    event.place?.isSome ∧ ¬ session.Refuses event ∧ (session.handle event).session.TakesSteps := by
  cases event with
  | addStep record =>
    have hhandle :=
      session.handle_of_not_opens (rfl : (Event.addStep record).opensFeature = false) rfl
    refine ⟨rfl, h.not_refuses record, ?_⟩
    unfold TakesSteps
    rw [hhandle.1, hhandle.2, Option.isSome_map]
    exact h
  | _ => exact Bool.noConfusion hevent

/-- An event that opens nothing goes to the child under the cursor. -/
theorem currentChild?_handle (session : Session σ) {event : Event}
    (hf : event.opensFeature = false) (hc : event.opensContainer = false) :
    (session.handle event).session.currentChild? =
      session.currentChild?.map (·.extend [⟨session.path, event⟩]) := by
  obtain ⟨hcursor, hdraft⟩ := session.handle_of_not_opens hf hc
  unfold currentChild?
  rw [hcursor, hdraft]
  rcases session.draft with _ | draft
  · rfl
  · rcases session.cursor with _ | _ | index
    · rfl
    · rfl
    · show (draft.children.modify index _)[index]? = _
      rw [List.getElem?_modify_eq]
      rfl

/-- Nothing that goes to an outline makes it a scenario. -/
theorem TakesExamples.handle {session : Session σ} (h : session.TakesExamples) {event : Event}
    (hf : event.opensFeature = false) (hc : event.opensContainer = false) :
    (session.handle event).session.TakesExamples := by
  have hextend : ∀ child : ChildDraft,
      (child.extend [⟨session.path, event⟩]).isOutline = child.isOutline := by
    intro child
    cases child <;> rfl
  unfold TakesExamples at *
  rw [session.currentChild?_handle hf hc, Option.any_map]
  exact (congrArg (Option.any · session.currentChild?) (funext hextend)).trans h

/-- A step or examples block below an outline is kept, and the outline stays the one that is open.
-/
theorem TakesExamples.add {session : Session σ} (h : session.TakesExamples) {event : Event}
    (hevent : event.step?.isSome ∨ event.block?.isSome) :
    event.place?.isSome ∧ ¬ session.Refuses event ∧
      (session.handle event).session.TakesExamples := by
  cases event with
  | addStep record => exact ⟨rfl, h.takesSteps.not_refuses record, h.handle rfl rfl⟩
  | addExamples record =>
    refine ⟨rfl, ?_, h.handle rfl rfl⟩
    rintro (hnone | hnot)
    · exact Option.isSome_iff_ne_none.mp h.takesSteps.1 hnone
    · exact hnot h
  | _ => simp [Event.step?, Event.block?] at hevent

/-! ### Sections -/

/-- The first background of a feature is kept with all its steps. It asks for a feature without one,
as a second would be refused. -/
theorem keeps_background {session : Session σ} {draft : FeatureDraft}
    (hd : session.draft = some draft) (hvacant : draft.background = none) (record : Record)
    {body : List Event} (hbody : ∀ event ∈ body, event.step?.isSome) :
    session.Keeps (.openBackground record :: body) ∧
      (session.run ((.openBackground record :: body).map Call.event)).draft.isSome := by
  have hhandle : (session.handle (.openBackground record)).session.TakesSteps := by
    rw [handle_openBackground hd, openBackground, hvacant]
    exact ⟨rfl, rfl⟩
  obtain ⟨hkeeps, hafter⟩ :=
    keeps_each (fun event he _ h => TakesSteps.step h (hbody event he)) hhandle
  exact ⟨⟨rfl, not_refuses_background hd hvacant record, hkeeps⟩, hafter.1⟩

theorem keeps_scenario {session : Session σ} (hd : session.draft.isSome) (record : Record)
    {body : List Event} (hbody : ∀ event ∈ body, event.step?.isSome) :
    session.Keeps (.openScenario record :: body) ∧
      (session.run ((.openScenario record :: body).map Call.event)).draft.isSome := by
  obtain ⟨draft, hdraft⟩ := Option.isSome_iff_exists.mp hd
  have hhandle : (session.handle (.openScenario record)).session.TakesSteps := by
    rw [handle_openScenario hdraft]
    exact ⟨rfl, rfl⟩
  obtain ⟨hkeeps, hafter⟩ :=
    keeps_each (fun event he _ h => TakesSteps.step h (hbody event he)) hhandle
  exact ⟨⟨rfl, not_refuses_child hd rfl, hkeeps⟩, hafter.1⟩

/-- A child needs nothing but an open feature. An outline is under the cursor once it is open, where
it takes steps and examples. -/
theorem keeps_outline {session : Session σ} (hd : session.draft.isSome) (record : Record)
    {body : List Event} (hbody : ∀ event ∈ body, event.step?.isSome ∨ event.block?.isSome) :
    session.Keeps (.openOutline record :: body) ∧
      (session.run ((.openOutline record :: body).map Call.event)).draft.isSome := by
  obtain ⟨draft, hdraft⟩ := Option.isSome_iff_exists.mp hd
  have hhandle : (session.handle (.openOutline record)).session.TakesExamples := by
    rw [handle_openOutline hdraft]
    show Option.any _ (draft.children ++ [_])[draft.children.length]?
    rw [List.getElem?_concat_length]
    rfl
  obtain ⟨hkeeps, hafter⟩ :=
    keeps_each (fun event he _ h => TakesExamples.add h (hbody event he)) hhandle
  exact ⟨⟨rfl, not_refuses_child hd rfl, hkeeps⟩, hafter.takesSteps.1⟩

/-- What stands between the opening of a document and its end is kept part by part. -/
theorem keeps_of_follows {session : Session σ} {placed : Placed} {first rest : List Event}
    (hd : session.draft = some { placed })
    (hfirst : Protocol.Follows (1 + Protocol.background) first)
    (hrest : Protocol.Follows (Protocol.scenario + Protocol.outline).star rest) :
    session.Keeps (first ++ rest) := by
  -- What the sections behind it need is an open feature, with or without a background in it.
  have hbackground : session.Keeps first ∧ (session.run (first.map Call.event)).draft.isSome := by
    rcases Protocol.or_of_follows_add hfirst with hnone | hone
    · rw [List.map_eq_nil_iff.mp hnone]
      exact ⟨trivial, Option.isSome_iff_exists.mpr ⟨_, hd⟩⟩
    · obtain ⟨record, body, rfl, hbody⟩ := Protocol.eq_of_follows_background hone
      exact keeps_background hd rfl record hbody
  refine hbackground.1.append ?_
  obtain ⟨parts, rfl, hparts⟩ := Protocol.eq_flatten_of_follows_star hrest
  have hpart : ∀ part ∈ parts, ∀ session : Session σ, session.draft.isSome →
      session.Keeps part ∧ (session.run (part.map Call.event)).draft.isSome := by
    intro part hpart session hopen
    rcases Protocol.or_of_follows_add (hparts part hpart) with hscenario | houtline
    · obtain ⟨record, body, rfl, hbody⟩ := Protocol.eq_of_follows_scenario hscenario
      exact keeps_scenario hopen record hbody
    · obtain ⟨record, body, rfl, hbody⟩ := Protocol.eq_of_follows_outline houtline
      exact keeps_outline hopen record hbody
  exact (keeps_flatten hpart hbackground.2).1

/-- **Whoever keeps to the grammar is heard.** After its opening a document told in order is kept,
event by event, up to its end. -/
theorem exists_keeps_of_follows {events : List Event}
    (h : Protocol.Follows Protocol.document events) :
    ∃ path code record told,
      events.map Call.event =
        opening path code record ++ told.map Call.event ++ [.event .endOfDocument] ∧
      ∀ session : Session σ, (session.run (opening path code record)).Keeps told := by
  obtain ⟨_, _, rfl, h, hend⟩ := Protocol.eq_append_of_follows_mul h
  obtain ⟨_, rest, rfl, h, hrest⟩ := Protocol.eq_append_of_follows_mul h
  obtain ⟨_, first, rfl, h, hfirst⟩ := Protocol.eq_append_of_follows_mul h
  obtain ⟨path, code, record, rfl⟩ := Protocol.eq_of_follows_opening h
  obtain rfl := Protocol.eq_of_follows_endOfDocument hend
  refine ⟨path, code, record, first ++ rest, ?_, ?_⟩
  · simp [opening]
  · intro session
    exact keeps_of_follows rfl hfirst hrest

end Session
end FeatureTree
