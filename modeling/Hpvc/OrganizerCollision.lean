import Hpvc.OrganizerShutdown

/-! The organizer at the end of a simulation. It is no part of the fin messages: it is killed
only after the listeners have ended, and may still migrate a VM until then. -/
namespace Hpvc.Organizer

/-- The VM for which `migrate_vm` was called and whose message has not been received. -/
def Manager.underWay : Manager → Option Int
  | .migrating vm => some vm
  | .sending vm => some vm
  | _ => none

/-- The organizer is blocked in a send to a listener that has ended. -/
def LeftBlocked (s : Processes) : Prop := ∃ vm, s.organizer = .sending vm ∧ s.listeners vm = .ended

/-- At some step of a run, the organizer calls for a listener that has ended, or it is left
blocked on one. -/
def Collides (k : Simulation) (events : List ProcessEvent) : Prop :=
  ∃ past event rest mid next, events = past ++ event :: rest ∧
    Runs.run (processStep k) k.start past = some mid ∧ processStep k mid event = some next ∧
    ((∃ vm data, event = .send .organizer ⟨.vm vm, data⟩ ∧ mid.listeners vm = .ended) ∨ LeftBlocked next)

/-- `get_finalize` has not begun to tell the listeners to end. -/
def GetFinalize.early : GetFinalize → Bool
  | .collecting _ => true
  | .sleeping => true
  | _ => false

/-- A step that keeps the two apart: `migrate_vm` is only called before `get_finalize` begins to tell the
listeners to end, and it only begins while the organizer is in no `migrate_vm`. -/
def KeepsApart (s : Processes) : ProcessEvent → Prop
  | .migrate _ => s.finalize.early = true
  | .proceed => match s.finalize with
    | .sleeping => s.organizer.underWay = none
    | _ => True
  | _ => True

instance (s : Processes) (event : ProcessEvent) : Decidable (KeepsApart s event) := by
  unfold KeepsApart
  split
  · infer_instance
  · split <;> infer_instance
  · infer_instance

/-- The organizer is in `migrate_vm` only before the listeners are told to end. -/
def Apart (s : Processes) : Prop := ∀ v, s.organizer.underWay = some v → s.finalize.early = true

theorem Apart.congr {s next : Processes} (apart : Apart s) (organizer : next.organizer = s.organizer)
    (finalize : next.finalize.early = s.finalize.early) : Apart next := by
  intro v under_way
  rw [organizer] at under_way
  rw [finalize]
  exact apart v under_way

/-- Before that all listeners receive. -/
theorem Orderly.receiving {k : Simulation} {past : List ProcessEvent} {s : Processes} (orderly : Orderly k past s)
    (early : s.finalize.early = true) (v : Int) : s.listeners v ≠ .ended := by
  intro ended
  obtain ⟨low, high⟩ := (orderly.told.ended v).mp ended
  cases is : s.finalize with
  | collecting i =>
    rw [is,GetFinalize.told] at high
    omega
  | sleeping =>
    rw [is,GetFinalize.told] at high
    omega
  | _ =>
    rw [is] at early
    cases early

/-- From then on all processes are through. -/
theorem Orderly.everyone {k : Simulation} {past : List ProcessEvent} {s : Processes} (orderly : Orderly k past s)
    (collected : ∀ i, s.finalize ≠ .collecting i) : ∀ t < k.numberOfProcess, (s.tasks t).isFinished = true := by
  intro t inside
  by_contra unfinished
  obtain ⟨⟨i, _, collecting⟩, _⟩ := orderly.early inside (by simpa using unfinished)
  exact collected i collecting

theorem Orderly.all_ended {k : Simulation} {past : List ProcessEvent} {s : Processes} (orderly : Orderly k past s)
    (through : s.finalize.Through) {vm : Nat} (inside : vm < k.numberOfVMs) : s.listeners vm = .ended := by
  apply (orderly.told.ended vm).mpr
  cases is : s.finalize with
  | closing =>
    simp only [GetFinalize.told]
    omega
  | ended =>
    simp only [GetFinalize.told]
    omega
  | _ =>
    rw [is] at through
    contradiction

/-- The organizer calls where it migrates. -/
theorem organizer_call {k : Simulation} {s next : Processes} {message : Message}
    (calls : s.call k .organizer = some (message, next)) :
    ∃ vm, s.organizer = .migrating vm ∧ message = ⟨.vm vm, none⟩ ∧
      next = { s with organizer := .sending vm } := by
  obtain ⟨⟨called, organizer⟩, call, same⟩ := Option.map_eq_some_iff.mp calls
  cases same
  cases is : s.organizer with
  | migrating vm =>
    rw [is] at call
    cases call
    exact ⟨vm, rfl, rfl, rfl⟩
  | _ =>
    rw [is] at call
    cases call

theorem organizer_blocked {s mid : Processes} {message : Message}
    (blocked : s.blocked .organizer = some (message, mid)) :
    ∃ vm, s.organizer = .sending vm ∧ message = ⟨.vm vm, none⟩ ∧ mid = { s with organizer := .waiting } := by
  obtain ⟨⟨sent, organizer⟩, was, same⟩ := Option.map_eq_some_iff.mp blocked
  cases same
  cases is : s.organizer with
  | sending vm =>
    rw [is] at was
    cases was
    exact ⟨vm, rfl, rfl, rfl⟩
  | _ =>
    rw [is] at was
    cases was

theorem finalize_blocked {s mid : Processes} {message : Message}
    (blocked : s.blocked .finalize = some (message, mid)) :
    ∃ i : Nat, s.finalize = .sendingFinish i ∧ message = ⟨.vm i, some "finish"⟩ ∧
      mid = { s with finalize := .finishing (i + 1) } := by
  obtain ⟨⟨sent, finalize⟩, was, same⟩ := Option.map_eq_some_iff.mp blocked
  cases same
  cases is : s.finalize with
  | sendingFinish i =>
    rw [is] at was
    cases was
    exact ⟨i, rfl, rfl, rfl⟩
  | _ =>
    rw [is] at was
    cases was

theorem send_apart {k : Simulation} {s next : Processes} {party : Party} {message : Message}
    (apart : Apart s) (calls : s.call k party = some (message, next)) : Apart next := by
  cases party with
  | task t =>
    simp only [Processes.call] at calls
    split at calls
    next =>
      obtain ⟨_, _, same⟩ := Option.map_eq_some_iff.mp calls
      cases same
      exact apart.congr rfl rfl
    next => cases calls
  | finalize =>
    obtain ⟨⟨called, finalize⟩, call, same⟩ := Option.map_eq_some_iff.mp calls
    cases same
    intro v under_way
    have early := apart v under_way
    cases is : s.finalize with
    | finishing i =>
      rw [is] at early
      cases early
    | _ =>
      rw [is] at call
      cases call
  | organizer =>
    obtain ⟨vm, migrating, _, rfl⟩ := organizer_call calls
    intro v same
    cases same
    exact apart vm (by rw [migrating]; rfl)

theorem transfer_apart {k : Simulation} {s mid next : Processes} {party : Party} {message : Message}
    (apart : Apart s) (blocked : s.blocked party = some (message, mid))
    (received : mid.receive k message = some next) : Apart next := by
  cases party with
  | task t =>
    obtain ⟨⟨sent, task⟩, was, same⟩ := Option.map_eq_some_iff.mp blocked
    cases same
    obtain ⟨_, ⟨v, tasks, _, rfl, _⟩ | ⟨_, rfl, _⟩⟩ := ProcessTask.blocked_some was
    · obtain ⟨_, _, _, _, finalize, organizer, _⟩ := receive_vm received
      exact apart.congr organizer (congrArg _ finalize)
    · obtain ⟨i, _, collecting, rfl⟩ := receive_fin received
      dsimp only at collecting
      exact apart.congr rfl (by rw [collecting]; rfl)
  | finalize =>
    obtain ⟨i, sending, rfl, rfl⟩ := finalize_blocked blocked
    obtain ⟨_, _, _, _, _, organizer, _⟩ := receive_vm received
    intro v under_way
    rw [organizer] at under_way
    have early := apart v under_way
    rw [sending] at early
    cases early
  | organizer =>
    obtain ⟨vm, _, rfl, rfl⟩ := organizer_blocked blocked
    obtain ⟨_, _, _, _, _, organizer, _, _⟩ := receive_vm received
    intro v under_way
    rw [organizer] at under_way
    cases under_way

theorem proceed_apart {k : Simulation} {s : Processes} {finalize : GetFinalize} (apart : Apart s)
    (keeps : KeepsApart s .proceed) (proceeds : s.finalize.proceed k = some finalize) :
    ∀ v, s.organizer.underWay = some v → finalize.early = true := by
  intro v under_way
  have early := apart v under_way
  cases is : s.finalize with
  | collecting i =>
    rw [is] at proceeds
    simp only [GetFinalize.proceed] at proceeds
    split at proceeds
    next => cases proceeds
    next =>
      cases proceeds
      rfl
  | sleeping =>
    simp only [KeepsApart,is] at keeps
    rw [keeps] at under_way
    cases under_way
  | _ =>
    rw [is] at early
    cases early

theorem step_apart {k : Simulation} {s next : Processes} {event : ProcessEvent} (apart : Apart s)
    (keeps : KeepsApart s event) (taken : processStep k s event = some next) : Apart next := by
  cases event with
  | create =>
    obtain ⟨_, rfl⟩ := create_some taken
    exact apart.congr rfl rfl
  | execute t =>
    obtain ⟨_, _, _, rfl⟩ := execute_some taken
    exact apart.congr rfl rfl
  | migrate vm =>
    obtain rfl := migrate_some taken
    exact fun _ _ => keeps
  | send party message => exact send_apart apart (send_some.mp taken)
  | retry party message => exact retry_some taken ▸ apart
  | transfer party message =>
    obtain ⟨mid, blocked, received⟩ := transfer_some.mp taken
    exact transfer_apart apart blocked received
  | proceed =>
    obtain ⟨finalize, proceeds, rfl⟩ := Option.map_eq_some_iff.mp taken
    have early := proceed_apart apart keeps proceeds
    intro v under_way
    dsimp only at under_way ⊢
    split at under_way
    · cases under_way
    · exact early v under_way

/-- In a run whose steps all keep the two apart, they are. -/
theorem run_apart {k : Simulation} {events : List ProcessEvent} {s : Processes}
    (keeps : Runs.Each (processStep k) k.start events KeepsApart)
    (reached : Runs.run (processStep k) k.start events = some s) : Apart s := by
  revert keeps
  apply Runs.run_history (fun past mid => Runs.Each (processStep k) k.start past KeepsApart → Apart mid)
    _ _ reached
  · intro _ v under_way
    simp only [Simulation.start] at under_way
    split at under_way <;> cases under_way
  · intro past mid event next before apart taken keeps
    obtain ⟨earlier, now⟩ := Runs.each_snoc.mp keeps
    exact step_apart (apart earlier) (now mid before) taken

/-- A migration that is under way has been, or is that of the step. -/
theorem step_underWay {k : Simulation} {s next : Processes} {event : ProcessEvent} {v : Int}
    (taken : processStep k s event = some next) (under_way : next.organizer.underWay = some v) :
    s.organizer.underWay = some v ∨ ∃ vm < k.numberOfVMs, v = (vm : Nat) := by
  cases event with
  | create =>
    obtain ⟨_, rfl⟩ := create_some taken
    exact .inl under_way
  | execute t =>
    obtain ⟨_, _, _, rfl⟩ := execute_some taken
    exact .inl under_way
  | migrate vm =>
    obtain rfl := migrate_some taken
    cases under_way
    simp only [processStep] at taken
    split at taken
    next =>
      split at taken
      next inside => exact .inr ⟨vm, inside, rfl⟩
      next => cases taken
    next => cases taken
  | send party message =>
    have calls := send_some.mp taken
    cases party with
    | organizer =>
      obtain ⟨vm, migrating, _, rfl⟩ := organizer_call calls
      cases under_way
      exact .inl (by rw [migrating]; rfl)
    | task t =>
      simp only [Processes.call] at calls
      split at calls
      next =>
        obtain ⟨_, _, same⟩ := Option.map_eq_some_iff.mp calls
        cases same
        exact .inl under_way
      next => cases calls
    | finalize =>
      obtain ⟨_, _, same⟩ := Option.map_eq_some_iff.mp calls
      cases same
      exact .inl under_way
  | retry party message => exact .inl (retry_some taken ▸ under_way)
  | transfer party message =>
    obtain ⟨mid, blocked, received⟩ := transfer_some.mp taken
    have kept : next.organizer = mid.organizer := by
      obtain ⟨mailbox, data⟩ := message
      cases mailbox with
      | vm v =>
        obtain ⟨_, _, _, _, _, organizer, _⟩ := receive_vm received
        exact organizer
      | fin =>
        obtain ⟨_, _, _, rfl⟩ := receive_fin received
        rfl
    rw [kept] at under_way
    cases party with
    | organizer =>
      obtain ⟨vm, _, _, rfl⟩ := organizer_blocked blocked
      cases under_way
    | task t =>
      obtain ⟨_, _, same⟩ := Option.map_eq_some_iff.mp blocked
      cases same
      exact .inl under_way
    | finalize =>
      obtain ⟨_, _, same⟩ := Option.map_eq_some_iff.mp blocked
      cases same
      exact .inl under_way
  | proceed =>
    obtain ⟨finalize, _, rfl⟩ := Option.map_eq_some_iff.mp taken
    dsimp only at under_way
    split at under_way
    · cases under_way
    · exact .inl under_way

/-- The VM that is migrated is one of the cluster. -/
theorem run_inside {k : Simulation} {events : List ProcessEvent} {s : Processes}
    (reached : Runs.run (processStep k) k.start events = some s) :
    ∀ v, s.organizer.underWay = some v → ∃ vm < k.numberOfVMs, v = (vm : Nat) := by
  apply Runs.run_invariant (fun s : Processes => ∀ v, s.organizer.underWay = some v →
    ∃ vm < k.numberOfVMs, v = (vm : Nat)) _ _ reached
  · intro s event next inside taken v under_way
    exact (step_underWay taken under_way).elim (inside v) id
  · intro v under_way
    simp only [Simulation.start] at under_way
    split at under_way <;> cases under_way

theorem Collides.intro {k : Simulation} {past : List ProcessEvent} {mid next : Processes} {event : ProcessEvent}
    (before : Runs.run (processStep k) k.start past = some mid) (taken : processStep k mid event = some next)
    (collides : (∃ vm data, event = .send .organizer ⟨.vm vm, data⟩ ∧ mid.listeners vm = .ended) ∨
      LeftBlocked next) : Collides k (past ++ [event]) :=
  ⟨past, event, [], mid, next, rfl, before, taken, collides⟩

/-- An organizer that migrates a VM without listener collides when it calls. -/
theorem migrating_collides {k : Simulation} {past : List ProcessEvent} {s : Processes} {vm : Nat}
    (reached : Runs.run (processStep k) k.start past = some s) (migrating : s.organizer = .migrating vm)
    (ended : s.listeners vm = .ended) :
    ∃ final, Runs.run (processStep k) k.start (past ++ [.send .organizer ⟨.vm vm, none⟩]) = some final ∧
      Collides k (past ++ [.send .organizer ⟨.vm vm, none⟩]) := by
  have calls : s.call k .organizer = some (⟨.vm vm, none⟩, { s with organizer := .sending vm }) := by
    simp only [Processes.call,migrating,Manager.call,Option.map_some]
  have taken := send_some.mpr calls
  have onward := Runs.run_snoc (processStep k) k.start past (.send .organizer ⟨.vm vm, none⟩)
  rw [reached,Option.bind_some,taken] at onward
  exact ⟨_, onward, Collides.intro reached taken (.inl ⟨vm, none, rfl, ended⟩)⟩

/-- With a migration under way, the listeners can all be told to end before its message is received. -/
theorem under_way_collides {k : Simulation} {past : List ProcessEvent} {s : Processes} {vm : Nat}
    (reached : Runs.run (processStep k) k.start past = some s) (some_step : past ≠ [])
    (under_way : s.organizer.underWay = some (vm : Int)) (inside : vm < k.numberOfVMs)
    (collected : ∀ i, s.finalize ≠ .collecting i) :
    ∃ more final, Runs.run (processStep k) k.start (past ++ more) = some final ∧ Collides k (past ++ more) := by
  have orderly := run_orderly reached
  obtain ⟨more, final, ran, through, organizer⟩ := finalize_through orderly (orderly.everyone collected)
  have onward : Runs.run (processStep k) k.start (past ++ more) = some final := by
    rw [Runs.run_append,reached,Option.bind_some,ran]
  have ended := (run_orderly onward).all_ended through inside
  rw [← organizer] at under_way
  cases is : final.organizer with
  | migrating v =>
    rw [is] at under_way
    obtain rfl : v = vm := by simpa [Manager.underWay] using under_way
    obtain ⟨blocked, later, collides⟩ := migrating_collides onward is ended
    rw [List.append_assoc] at later collides
    exact ⟨_, blocked, later, collides⟩
  | sending v =>
    rw [is] at under_way
    obtain rfl : v = vm := by simpa [Manager.underWay] using under_way
    refine ⟨more, final, onward, ?_⟩
    obtain ⟨before, event, split⟩ : ∃ before event, past ++ more = before ++ [event] :=
      ⟨_, _, (List.dropLast_append_getLast (by simp [some_step])).symm⟩
    rw [split] at onward ⊢
    obtain ⟨mid, there, taken⟩ := Runs.run_snoc_some onward
    exact Collides.intro there taken (.inr ⟨v, is, ended⟩)
  | _ =>
    rw [is] at under_way
    cases under_way

/-- A step that does not keep them apart: the run can go on to a collision. -/
theorem unclear_collides {k : Simulation} {past : List ProcessEvent} {mid next : Processes}
    {event : ProcessEvent} (before : Runs.run (processStep k) k.start past = some mid)
    (taken : processStep k mid event = some next) (unclear : ¬ KeepsApart mid event) :
    ∃ more final, Runs.run (processStep k) k.start (past ++ [event] ++ more) = some final ∧
      Collides k (past ++ [event] ++ more) := by
  have reached := Runs.run_snoc (processStep k) k.start past event
  rw [before,Option.bind_some,taken] at reached
  cases event with
  | migrate vm =>
    obtain rfl := migrate_some taken
    obtain ⟨inside, same⟩ : ∃ v < k.numberOfVMs, (vm : Int) = (v : Nat) := run_inside reached vm rfl
    refine under_way_collides reached (by simp) rfl (by omega) fun i collecting => unclear ?_
    dsimp only at collecting
    simp only [KeepsApart,collecting,GetFinalize.early]
  | proceed =>
    cases is : mid.finalize with
    | sleeping =>
      simp only [KeepsApart,is] at unclear
      obtain ⟨v, under_way⟩ := Option.ne_none_iff_exists'.mp unclear
      obtain ⟨vm, inside, rfl⟩ := run_inside before v under_way
      simp only [processStep,is,GetFinalize.proceed,Option.map_some,Option.some.injEq] at taken
      subst taken
      exact under_way_collides reached (by simp) under_way inside fun i collecting => by cases collecting
    | _ => simp [KeepsApart,is] at unclear
  | _ => exact absurd trivial unclear

/-- In every run of the simulator whose steps all keep them apart, the organizer neither calls for a
listener that has ended nor is left blocked on one; and after any other step a run can go on to where it
does. -/
theorem organizer_kept_apart {k : Simulation} {events : List ProcessEvent} {s : Processes}
    (reached : Runs.run (processStep k) k.start events = some s) :
    (Runs.Each (processStep k) k.start events KeepsApart → ¬ Collides k events) ∧
    ∀ past event rest mid, events = past ++ event :: rest →
      Runs.run (processStep k) k.start past = some mid → ¬ KeepsApart mid event →
      ∃ more final, Runs.run (processStep k) k.start (past ++ [event] ++ more) = some final ∧
        Collides k (past ++ [event] ++ more) := by
  constructor
  · rintro keeps ⟨past, event, rest, mid, next, rfl, before, taken, collides⟩
    have earlier := run_apart (Runs.each_of_append keeps) before
    have after := Runs.run_snoc (processStep k) k.start past event
    rw [before,Option.bind_some,taken] at after
    rcases collides with ⟨vm, data, rfl, ended⟩ | ⟨vm, sending, ended⟩
    · obtain ⟨v, migrating, same, _⟩ := organizer_call (send_some.mp taken)
      cases same
      exact (run_orderly before).receiving (earlier v (by rw [migrating]; rfl)) v ended
    · have apart := step_apart earlier (keeps past event rest mid rfl before) taken
      exact (run_orderly after).receiving (apart vm (by rw [sending]; rfl)) vm ended
  · rintro past event rest mid rfl before unclear
    obtain ⟨there, same, later⟩ := Runs.run_append_some reached
    cases before.symm.trans same
    obtain ⟨next, taken, _⟩ := Option.bind_eq_some_iff.mp later
    exact unclear_collides before taken unclear

/-- One process without tasks on one VM. -/
def idleSimulation : Simulation := ⟨1, 1, fun _ => [], true⟩

/-- The steps from the start to the end of the only listener. -/
def listenerEnds : List ProcessEvent :=
  [.create, .send (.task 0) ⟨.fin, none⟩, .transfer (.task 0) ⟨.fin, none⟩, .proceed, .proceed,
    .send .finalize ⟨.vm 0, some "finish"⟩, .transfer .finalize ⟨.vm 0, some "finish"⟩]

/-- The VM is migrated before its listener is told to end. -/
theorem organizer_kept_apart_early :
    ¬ Collides idleSimulation
      (.migrate 0 :: .send .organizer ⟨.vm 0, none⟩ :: .transfer .organizer ⟨.vm 0, none⟩ :: listenerEnds) := by
  have runs : (Runs.run (processStep idleSimulation) idleSimulation.start
      (.migrate 0 :: .send .organizer ⟨.vm 0, none⟩ :: .transfer .organizer ⟨.vm 0, none⟩ ::
        listenerEnds)).isSome = true := by decide +kernel
  obtain ⟨s, reached⟩ := Option.isSome_iff_exists.mp runs
  exact (organizer_kept_apart reached).1 (Runs.each_of_check (by decide +kernel))

/-- It is migrated when its listener has ended, before the organizer is killed. -/
theorem organizer_collides :
    (Runs.run (processStep idleSimulation) idleSimulation.start
      (listenerEnds ++ [.migrate 0, .send .organizer ⟨.vm 0, none⟩])).isSome = true ∧
    Collides idleSimulation (listenerEnds ++ [.migrate 0, .send .organizer ⟨.vm 0, none⟩]) := by
  have told : (Runs.run (processStep idleSimulation) idleSimulation.start
      (listenerEnds ++ [.migrate 0])).map (fun s => (s.organizer.underWay, s.listeners 0)) =
        some (some 0, .ended) := by decide +kernel
  have runs : (Runs.run (processStep idleSimulation) idleSimulation.start
      (listenerEnds ++ [.migrate 0, .send .organizer ⟨.vm 0, none⟩])).isSome = true := by decide +kernel
  obtain ⟨mid, before, both⟩ := Option.map_eq_some_iff.mp told
  obtain ⟨final, reached⟩ := Option.isSome_iff_exists.mp runs
  refine ⟨runs, ?_⟩
  rw [List.append_cons] at reached ⊢
  obtain ⟨there, same, taken⟩ := Runs.run_snoc_some reached
  cases before.symm.trans same
  exact Collides.intro before taken (.inl ⟨0, none, rfl, (Prod.mk.inj both).2⟩)

end Hpvc.Organizer
