import Mathlib.Data.List.Induction

/-! Finite runs of a partial step function over a list of events. A step without
a successor ends the run; nothing is said about what happens after it. -/
namespace Runs

/-- The state after all events, if every one of them could be taken. -/
def run (step : S → E → Option S) : S → List E → Option S
  | s, [] => some s
  | s, event :: rest => (step s event).bind fun next => run step next rest

@[simp] theorem run_nil (step : S → E → Option S) (s : S) : run step s [] = some s := rfl

theorem run_cons (step : S → E → Option S) (s : S) (event : E) (rest : List E) :
    run step s (event :: rest) = (step s event).bind fun next => run step next rest := rfl

/-- A first step and the rest of a run. -/
theorem run_step {step : S → E → Option S} {s next final : S} {event : E} {rest : List E}
    (taken : step s event = some next) (later : run step next rest = some final) :
    run step s (event :: rest) = some final := by
  rw [run_cons,taken,Option.bind_some,later]

theorem run_append (step : S → E → Option S) (s : S) (first second : List E) :
    run step s (first ++ second) = (run step s first).bind fun mid => run step mid second := by
  induction first generalizing s with
  | nil => rfl
  | cons event rest ih =>
    simp only [List.cons_append,run_cons,Option.bind_assoc]
    congr 1
    funext next
    exact ih next

theorem run_snoc (step : S → E → Option S) (s : S) (events : List E) (event : E) :
    run step s (events ++ [event]) = (run step s events).bind fun mid => step mid event := by
  rw [run_append]
  congr 1
  funext mid
  simp [run_cons]

theorem run_append_some {step : S → E → Option S} {s final : S} {first second : List E}
    (h : run step s (first ++ second) = some final) :
    ∃ mid, run step s first = some mid ∧ run step mid second = some final := by
  rw [run_append] at h
  exact Option.bind_eq_some_iff.mp h

/-- One event of a past that has just grown: the new one, or one of those before. -/
theorem snoc_split {past before after : List E} {event e : E} :
    past ++ [event] = before ++ e :: after ↔
      (past = before ∧ event = e ∧ after = []) ∨
        ∃ rest, past = before ++ e :: rest ∧ after = rest ++ [event] := by
  constructor
  · intro split
    rcases List.eq_nil_or_concat after with rfl | ⟨rest, last, rfl⟩
    · obtain ⟨same, last⟩ := List.append_inj' split rfl
      exact .inl ⟨same, List.head_eq_of_cons_eq last, rfl⟩
    · rw [List.concat_eq_append,← List.cons_append,← List.append_assoc] at split
      obtain ⟨same, is⟩ := List.append_inj' split rfl
      exact .inr ⟨rest, same, by rw [List.concat_eq_append,is]⟩
  · rintro (⟨rfl, rfl, rfl⟩ | ⟨rest, rfl, rfl⟩) <;> simp

theorem run_snoc_some {step : S → E → Option S} {s final : S} {events : List E} {event : E}
    (h : run step s (events ++ [event]) = some final) :
    ∃ mid, run step s events = some mid ∧ step mid event = some final := by
  rw [run_snoc] at h
  exact Option.bind_eq_some_iff.mp h

/-- What every step keeps holds in every state a run reaches. -/
theorem run_invariant {step : S → E → Option S} (property : S → Prop)
    (preserved : ∀ s event next, property s → step s event = some next → property next)
    {s final : S} {events : List E} (initial : property s)
    (h : run step s events = some final) : property final := by
  induction events generalizing s with
  | nil => cases h; exact initial
  | cons event rest ih =>
    obtain ⟨next, taken, later⟩ := Option.bind_eq_some_iff.mp h
    exact ih (preserved s event next initial taken) later

/-- The same for a property of the state together with the events that led to it. -/
theorem run_history {step : S → E → Option S} (property : List E → S → Prop) {s : S}
    (initial : property [] s)
    (preserved : ∀ past mid event next, run step s past = some mid → property past mid →
      step mid event = some next → property (past ++ [event]) next)
    {final : S} {events : List E} (h : run step s events = some final) :
    property events final := by
  induction events using List.reverseRecOn generalizing final with
  | nil => cases h; exact initial
  | append_singleton past event ih =>
    obtain ⟨mid, before, taken⟩ := run_snoc_some h
    exact preserved past mid event final before (ih before) taken

/-- What the events of a run stand for, each in the state in which it comes. -/
def trace (step : S → E → Option S) (seen : S → E → List F) : S → List E → List F
  | _, [] => []
  | s, event :: rest => seen s event ++ ((step s event).map (trace step seen · rest)).getD []

/-- Simulation: where every step from a good state is a run of another machine, of no event, one or many, every run
is one. -/
theorem run_trace {step : S → E → Option S} {other : T → F → Option T} (good : S → Prop) (view : S → T)
    (seen : S → E → List F)
    (kept : ∀ s event next, good s → step s event = some next → good next)
    (simulates : ∀ s event next, good s → step s event = some next →
      run other (view s) (seen s event) = some (view next))
    {s final : S} {events : List E} (initial : good s) (reached : run step s events = some final) :
    run other (view s) (trace step seen s events) = some (view final) := by
  induction events generalizing s with
  | nil =>
    cases reached
    rfl
  | cons event rest ih =>
    obtain ⟨next, taken, later⟩ := Option.bind_eq_some_iff.mp reached
    have tail := ih (kept s event next initial taken) later
    rw [trace,taken,run_append,simulates s event next initial taken]
    exact tail

/-- A machine that can always take an admitted event from a good state, and stays
good, runs through every list of admitted events. -/
theorem run_total (step : S → E → Option S) (property : S → Prop) (admitted : E → Prop)
    (progress : ∀ s event, property s → admitted event →
      ∃ next, step s event = some next ∧ property next)
    {s : S} (initial : property s) (events : List E) (all : ∀ event ∈ events, admitted event) :
    ∃ final, run step s events = some final ∧ property final := by
  induction events generalizing s with
  | nil => exact ⟨s, rfl, initial⟩
  | cons event rest ih =>
    obtain ⟨next, taken, good⟩ := progress s event initial (all event List.mem_cons_self)
    obtain ⟨final, later, reached⟩ := ih good fun e member => all e (List.mem_cons_of_mem _ member)
    exact ⟨final, by simp [run_cons,taken,later], reached⟩

/-- From a good state the goal can be reached, if some event always brings it nearer. -/
theorem run_reaches {step : S → E → Option S} (good goal : S → Prop) (left : S → Nat)
    (progress : ∀ s, good s → ¬ goal s →
      ∃ event next, step s event = some next ∧ good next ∧ left next < left s)
    {s : S} (initial : good s) : ∃ events final, run step s events = some final ∧ goal final := by
  induction far : left s using Nat.strongRecOn generalizing s with
  | ind n ih =>
    by_cases there : goal s
    · exact ⟨[], s, rfl, there⟩
    · obtain ⟨event, next, taken, fine, nearer⟩ := progress s initial there
      obtain ⟨events, final, reached, arrived⟩ := ih (left next) (far ▸ nearer) fine rfl
      exact ⟨event :: events, final, by rw [run_cons,taken,Option.bind_some,reached], arrived⟩

/-- Something holds of every event of a run, in the state in which it comes. -/
def Each (step : S → E → Option S) (s : S) (events : List E) (holds : S → E → Prop) : Prop :=
  ∀ past event rest mid, events = past ++ event :: rest → run step s past = some mid → holds mid event

theorem each_nil (step : S → E → Option S) (s : S) (holds : S → E → Prop) :
    Each step s [] holds := by
  intro past event rest mid split
  simp at split

theorem each_of_append {step : S → E → Option S} {s : S} {first second : List E} {holds : S → E → Prop}
    (all : Each step s (first ++ second) holds) : Each step s first holds := by
  intro past event rest mid split reached
  exact all past event (rest ++ second) mid (by simp [split]) reached

theorem each_cons {step : S → E → Option S} {s : S} {event : E} {rest : List E}
    {holds : S → E → Prop} :
    Each step s (event :: rest) holds ↔
      holds s event ∧ ∀ next, step s event = some next → Each step next rest holds := by
  constructor
  · intro all
    refine ⟨all [] event rest s rfl rfl, fun next taken past later tail mid split before => ?_⟩
    exact all (event :: past) later tail mid (by simp [split]) (by simp [run_cons,taken,before])
  · rintro ⟨first, others⟩ past later tail mid split before
    cases past with
    | nil =>
      cases split
      cases before
      exact first
    | cons _ past =>
      cases split
      obtain ⟨next, taken, before⟩ := Option.bind_eq_some_iff.mp before
      exact others next taken past later tail mid rfl before

theorem each_snoc {step : S → E → Option S} {s : S} {past : List E} {event : E} {holds : S → E → Prop} :
    Each step s (past ++ [event]) holds ↔
      Each step s past holds ∧ ∀ mid, run step s past = some mid → holds mid event := by
  constructor
  · intro all
    refine ⟨fun before e rest mid split reached => ?_, fun mid reached => all past event [] mid rfl reached⟩
    exact all before e (rest ++ [event]) mid (by simp [split]) reached
  · rintro ⟨old, new⟩ before e rest mid split reached
    rcases snoc_split.mp split with ⟨rfl, rfl, _⟩ | ⟨tail, same, _⟩
    · exact new mid reached
    · exact old before e tail mid same reached

/-- A run of events that can all be taken when they come has an end. -/
theorem each_total {step : S → E → Option S} {s : S} {events : List E}
    (all : Each step s events fun mid event => ∃ next, step mid event = some next) :
    ∃ final, run step s events = some final := by
  induction events generalizing s with
  | nil => exact ⟨s, rfl⟩
  | cons event rest ih =>
    obtain ⟨⟨next, taken⟩, later⟩ := each_cons.mp all
    obtain ⟨final, reached⟩ := ih (later next taken)
    exact ⟨final, by simp [run_cons,taken,reached]⟩

/-- The events of a run are followed and each is checked. -/
def check (step : S → E → Option S) (holds : S → E → Prop) [∀ s event, Decidable (holds s event)] :
    S → List E → Bool
  | _, [] => true
  | s, event :: rest => decide (holds s event) && (step s event).all fun next => check step holds next rest

theorem each_of_check {step : S → E → Option S} {holds : S → E → Prop}
    [∀ s event, Decidable (holds s event)] {s : S} {events : List E}
    (checked : check step holds s events = true) : Each step s events holds := by
  induction events generalizing s with
  | nil => exact each_nil _ _ _
  | cons event rest ih =>
    simp only [check,Bool.and_eq_true,decide_eq_true_eq] at checked
    obtain ⟨now, later⟩ := checked
    refine each_cons.mpr ⟨now, fun next taken => ih ?_⟩
    rw [taken] at later
    exact later

/-- What each event of a run leaves as it was, the run leaves as it was. -/
theorem run_kept {step : S → E → Option S} (value : S → V) (quiet : S → E → Prop)
    (kept : ∀ s event next, quiet s event → step s event = some next → value next = value s)
    {s final : S} {events : List E} (all : Each step s events quiet)
    (h : run step s events = some final) : value final = value s := by
  induction events generalizing s with
  | nil => cases h; rfl
  | cons event rest ih =>
    obtain ⟨now, later⟩ := each_cons.mp all
    obtain ⟨next, taken, reached⟩ := Option.bind_eq_some_iff.mp h
    exact (ih (later next taken) reached).trans (kept s event next now taken)

/-- Where an admitted event in a good state has a property exactly under a condition, and
the property makes the next state good, the events of a run all have the property exactly
if they all meet the condition. -/
theorem each_iff {step : S → E → Option S} (good : S → Prop) (admitted : S → E → Prop)
    {holds condition : S → E → Prop}
    (exact : ∀ s event, good s → admitted s event → (holds s event ↔ condition s event))
    (keeps : ∀ s event next, good s → admitted s event → holds s event →
      step s event = some next → good next)
    {s : S} (initial : good s) (events : List E) (all : Each step s events admitted) :
    Each step s events holds ↔ Each step s events condition := by
  induction events generalizing s with
  | nil => exact iff_of_true (each_nil _ _ _) (each_nil _ _ _)
  | cons event rest ih =>
    obtain ⟨allowed, later⟩ := each_cons.mp all
    rw [each_cons,each_cons,← exact s event initial allowed]
    refine and_congr_right fun has => forall_congr' fun next => forall_congr' fun taken => ?_
    exact ih (keeps s event next initial allowed has taken) (later next taken)

end Runs
