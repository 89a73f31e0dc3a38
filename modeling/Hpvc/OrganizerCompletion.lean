import Hpvc.Library.Progress
import Hpvc.OrganizerShutdown

/-! Whether a simulation comes to its end. All steps but those of the organizer, and sends that fail, use up
something, so a run gets to where there are none left; what may be left then is a process that sends
to a VM that there is none of. -/
namespace Hpvc.Organizer

open Progress

/-- The steps of a task of the work loop. -/
def Task.steps : Task → Nat
  | .execute => 1
  | .send _ => 2

/-- The steps a process still makes; two are for the fin message. -/
def ProcessTask.left : ProcessTask → Nat
  | .working tasks => (tasks.map Task.steps).sum + 2
  | .sending _ tasks => (tasks.map Task.steps).sum + 3
  | .sendingFin => 1
  | .finished => 0

/-- The steps `get_finalize` makes on its own. -/
def GetFinalize.remaining (k : Simulation) : GetFinalize → Nat
  | .ended => 0
  | finalize => finalize.left k + 1

def Processes.left (k : Simulation) (s : Processes) : Nat :=
  k.numberOfProcess - s.created + ∑ t ∈ Finset.range k.numberOfProcess, (s.tasks t).left +
    s.finalize.remaining k

/-- The steps of the whole simulation. -/
def Simulation.work (k : Simulation) : Nat :=
  k.numberOfProcess + ∑ t ∈ Finset.range k.numberOfProcess, (((k.program t).map Task.steps).sum + 2) +
    (2 * k.numberOfVMs + 4)

/-- What `create_tasks`, the processes and `get_finalize` do; the organizer goes on until it is killed. -/
def ProcessEvent.productive : ProcessEvent → Bool
  | .migrate _ => false
  | .retry _ _ => false
  | .send party _ => party ≠ .organizer
  | .transfer party _ => party ≠ .organizer
  | _ => true

/-- Everybody is through. -/
structure Complete (k : Simulation) (s : Processes) : Prop where
  created : s.created = k.numberOfProcess
  tasks : ∀ t < k.numberOfProcess, s.tasks t = .finished
  listeners : ∀ v : Int, 0 ≤ v → v < k.numberOfVMs → s.listeners v = .ended
  finalize : s.finalize = .ended

theorem ProcessTask.call_left {task next : ProcessTask} {message : Message}
    (calls : task.call = some (message, next)) : next.left + 1 = task.left := by
  unfold ProcessTask.call at calls
  split at calls
  · cases calls
    simp only [ProcessTask.left,List.map_cons,List.sum_cons,Task.steps]
    omega
  · cases calls
    rfl
  · contradiction

theorem ProcessTask.blocked_left {task next : ProcessTask} {message : Message}
    (blocked : task.blocked = some (message, next)) : next.left + 1 = task.left := by
  obtain ⟨_, ⟨v, tasks, rfl, _, rfl⟩ | ⟨rfl, _, rfl⟩⟩ := ProcessTask.blocked_some blocked
  · rfl
  · rfl

theorem GetFinalize.call_left {k : Simulation} {finalize next : GetFinalize} {message : Message}
    (calls : finalize.call k.numberOfVMs = some (message, next)) :
    next.remaining k + 1 = finalize.remaining k := by
  unfold GetFinalize.call at calls
  split at calls
  next i =>
    split at calls
    next => cases calls; rfl
    next => contradiction
  next => contradiction

theorem GetFinalize.blocked_left {k : Simulation} {finalize next : GetFinalize} {message : Message}
    (blocked : finalize.blocked = some (message, next)) (inside : finalize.issued k ≤ k.numberOfVMs) :
    next.remaining k + 1 = finalize.remaining k := by
  unfold GetFinalize.blocked at blocked
  split at blocked
  next i =>
    cases blocked
    simp only [GetFinalize.issued] at inside
    simp only [GetFinalize.remaining,GetFinalize.left]
    omega
  next => contradiction

theorem GetFinalize.proceed_left {k : Simulation} {finalize next : GetFinalize}
    (proceeds : finalize.proceed k = some next) : next.remaining k < finalize.remaining k := by
  cases finalize with
  | collecting i =>
    simp only [GetFinalize.proceed] at proceeds
    split at proceeds
    · contradiction
    · cases proceeds
      exact Nat.lt_succ_self _
  | finishing i =>
    simp only [GetFinalize.proceed] at proceeds
    split at proceeds
    · contradiction
    · cases proceeds
      simp [GetFinalize.remaining,GetFinalize.left]
  | sleeping =>
    cases proceeds
    exact Nat.lt_succ_self _
  | closing =>
    cases proceeds
    exact Nat.succ_pos _
  | sendingFinish i => contradiction
  | ended => contradiction

/-- Who receives makes no step of its own: `get_finalize` counts as many steps while it collects. -/
theorem receive_left {k : Simulation} {s next : Processes} {message : Message}
    (received : s.receive k message = some next) : next.left k = s.left k := by
  obtain ⟨mailbox, data⟩ := message
  cases mailbox with
  | vm v =>
    obtain ⟨_, _, created, tasks, finalize, _⟩ := receive_vm received
    rw [Processes.left,Processes.left,created,tasks,finalize]
  | fin =>
    obtain ⟨i, _, collecting, rfl⟩ := receive_fin received
    rw [Processes.left,Processes.left,collecting]
    rfl

theorem task_left {k : Simulation} {s : Processes} {t : Nat} (inside : t < k.numberOfProcess) (task : ProcessTask)
    (less : task.left + 1 = (s.tasks t).left) :
    ({ s with tasks := Function.update s.tasks t task } : Processes).left k + 1 = s.left k := by
  have moved := sum_update (Finset.mem_range.mpr inside) ProcessTask.left s.tasks task
  simp only [Processes.left]
  omega

theorem call_left {k : Simulation} {s next : Processes} {party : Party} {message : Message}
    (heard : Heard k s) (calls : s.call k party = some (message, next)) (other : party ≠ .organizer) :
    next.left k + 1 = s.left k := by
  cases party with
  | task t =>
    simp only [Processes.call] at calls
    split at calls
    next created_task =>
      obtain ⟨⟨called, task⟩, call, same⟩ := Option.map_eq_some_iff.mp calls
      cases same
      exact task_left (Nat.lt_of_lt_of_le created_task heard.created) task (ProcessTask.call_left call)
    next => contradiction
  | finalize =>
    obtain ⟨⟨called, finalize⟩, call, same⟩ := Option.map_eq_some_iff.mp calls
    cases same
    exact congrArg (_ + ·) (GetFinalize.call_left call)
  | organizer => contradiction

theorem blocked_left {k : Simulation} {past : List ProcessEvent} {s mid : Processes} {party : Party}
    {message : Message} (orderly : Orderly k past s) (blocked : s.blocked party = some (message, mid))
    (other : party ≠ .organizer) : mid.left k + 1 = s.left k := by
  cases party with
  | task t =>
    obtain ⟨⟨sent, task⟩, was, same⟩ := Option.map_eq_some_iff.mp blocked
    cases same
    have created_task := orderly.heard.exists_task (t := t) (by
      intro tasks working
      rw [working] at was
      contradiction)
    exact task_left (Nat.lt_of_lt_of_le created_task orderly.heard.created) task (ProcessTask.blocked_left was)
  | finalize =>
    obtain ⟨⟨sent, finalize⟩, was, same⟩ := Option.map_eq_some_iff.mp blocked
    cases same
    exact congrArg (_ + ·) (GetFinalize.blocked_left was orderly.told.inside)
  | organizer => contradiction

/-- What the organizer does concerns nobody else. -/
theorem organizer_keeps {k : Simulation} {s next : Processes} {event : ProcessEvent}
    (taken : processStep k s event = some next) (idle : event.productive = false) :
    next.created = s.created ∧ next.tasks = s.tasks ∧ next.finalize = s.finalize := by
  cases event with
  | migrate vm =>
    obtain rfl := migrate_some taken
    exact ⟨rfl, rfl, rfl⟩
  | retry party message =>
    obtain rfl := retry_some taken
    exact ⟨rfl, rfl, rfl⟩
  | send party message =>
    cases party with
    | organizer =>
      obtain ⟨⟨called, organizer⟩, _, same⟩ := Option.map_eq_some_iff.mp (send_some.mp taken)
      cases same
      exact ⟨rfl, rfl, rfl⟩
    | _ => contradiction
  | transfer party message =>
    cases party with
    | organizer =>
      obtain ⟨mid, blocked, received⟩ := transfer_some.mp taken
      obtain ⟨⟨sent, organizer⟩, was, same⟩ := Option.map_eq_some_iff.mp blocked
      cases same
      unfold Manager.blocked at was
      split at was
      · cases was
        obtain ⟨_, _, created, tasks, finalize, _⟩ := receive_vm received
        exact ⟨created, tasks, finalize⟩
      · contradiction
    | _ => contradiction
  | _ => contradiction

theorem processStep_descends (k : Simulation) :
    Descends (processStep k) ProcessEvent.productive (fun s => ∃ past, Orderly k past s) (Processes.left k) where
  kept := by
    rintro s event next ⟨past, orderly⟩ taken
    exact ⟨_, step_orderly orderly taken⟩
  keeps := by
    intro s event next _ taken idle
    obtain ⟨created, tasks, finalize⟩ := organizer_keeps taken idle
    rw [Processes.left,Processes.left,created,tasks,finalize]
  lowers := by
    rintro s event next ⟨past, orderly⟩ taken counts
    cases event with
    | create =>
      obtain ⟨more, rfl⟩ := create_some taken
      simp only [Processes.left]
      omega
    | execute t =>
      obtain ⟨tasks, working, created_task, rfl⟩ := execute_some taken
      have less := task_left (k := k) (s := s) (Nat.lt_of_lt_of_le created_task orderly.heard.created)
        (.working tasks) (by
          rw [working]
          simp only [ProcessTask.left,List.map_cons,List.sum_cons,Task.steps]
          omega)
      omega
    | send party message =>
      have less := call_left orderly.heard (send_some.mp taken) (of_decide_eq_true counts)
      omega
    | transfer party message =>
      obtain ⟨mid, blocked, received⟩ := transfer_some.mp taken
      have less := blocked_left orderly blocked (of_decide_eq_true counts)
      rw [receive_left received]
      omega
    | proceed =>
      obtain ⟨finalize, proceeds, rfl⟩ := Option.map_eq_some_iff.mp taken
      exact Nat.add_lt_add_left (GetFinalize.proceed_left proceeds) _
    | migrate vm => contradiction
    | retry party message => contradiction

/-- Only productive steps are left to `get_finalize`. -/
theorem finalize_stops {k : Simulation} {past : List ProcessEvent} {s : Processes} (orderly : Orderly k past s)
    (everyone : ∀ t < k.numberOfProcess, (s.tasks t).isFinished = true)
    (exhausted : Exhausted (processStep k) ProcessEvent.productive s) : s.finalize = .ended := by
  have through : s.finalize.Through := by
    by_contra working
    obtain ⟨event, next, taken, tasks, _, nearer⟩ := finalize_goes_on orderly everyone working
    cases counts : event.productive with
    | true => cases (exhausted event counts).symm.trans taken
    | false =>
      rw [(organizer_keeps taken counts).2.2] at nearer
      exact absurd nearer (Nat.lt_irrefl _)
  cases is : s.finalize with
  | ended => rfl
  | closing =>
    have able : processStep k s .proceed ≠ none := by simp [processStep,is,GetFinalize.proceed]
    exact absurd (exhausted .proceed rfl) able
  | _ =>
    rw [is] at through
    contradiction

/-- Where no productive step is left, a process that is not through sends to no VM. -/
theorem task_stops {k : Simulation} {past : List ProcessEvent} {s : Processes} (orderly : Orderly k past s)
    (exhausted : Exhausted (processStep k) ProcessEvent.productive s) :
    s.created = k.numberOfProcess ∧ ∀ t < k.numberOfProcess, s.tasks t = .finished ∨
      ∃ v tasks, s.tasks t = .sending v tasks ∧ ¬ (0 ≤ v ∧ v < k.numberOfVMs) := by
  have created : s.created = k.numberOfProcess := by
    refine Nat.le_antisymm orderly.heard.created (Nat.le_of_not_lt fun more => ?_)
    have able : processStep k s .create ≠ none := by simp [processStep,more]
    exact able (exhausted .create rfl)
  refine ⟨created, fun t inside => ?_⟩
  have exists_task : t < s.created := created ▸ inside
  have no_send (message : Message) (task : ProcessTask) : (s.tasks t).call ≠ some (message, task) := by
    intro calls
    have able : processStep k s (.send (.task t) message) =
        some { s with tasks := Function.update s.tasks t task } :=
      send_some.mpr (by rw [Processes.call,if_pos exists_task,calls]; rfl)
    cases (exhausted _ rfl).symm.trans able
  have no_transfer (message : Message) (task : ProcessTask)
      (is_mailbox : ∀ v, message.mailbox = .vm v → 0 ≤ v ∧ v < k.numberOfVMs) :
      (s.tasks t).blocked ≠ some (message, task) := by
    intro was
    have blocked : s.blocked (.task t) = some (message, { s with tasks := Function.update s.tasks t task }) := by
      rw [Processes.blocked,was]
      rfl
    obtain ⟨next, received⟩ := blocked_received orderly blocked is_mailbox
    cases (exhausted (.transfer (.task t) message) rfl).symm.trans (transfer_some.mpr ⟨_, blocked, received⟩)
  cases is : s.tasks t with
  | finished => exact .inl rfl
  | sending v tasks =>
    refine .inr ⟨v, tasks, rfl, fun inside => ?_⟩
    refine no_transfer ⟨.vm v, none⟩ (.working tasks) ?_ (by rw [is]; rfl)
    intro w same
    cases same
    exact inside
  | sendingFin => exact absurd (by rw [is]; rfl) (no_transfer ⟨.fin, none⟩ .finished (fun _ => Mailbox.noConfusion))
  | working tasks =>
    cases tasks with
    | nil => exact absurd (by rw [is]; rfl) (no_send ⟨.fin, none⟩ .sendingFin)
    | cons task tasks =>
      cases task with
      | send v => exact absurd (by rw [is]; rfl) (no_send ⟨.vm v, none⟩ (.sending v tasks))
      | execute =>
        have able : processStep k s (.execute t) ≠ none := by simp [processStep,is,exists_task]
        exact absurd (exhausted (.execute t) rfl) able

/-- How a process goes on. A send is only got over where there is a listener. -/
inductive ProcessTask.Moves (k : Simulation) : ProcessTask → ProcessTask → Prop where
  | executed (tasks : List Task) : Moves k (.working (.execute :: tasks)) (.working tasks)
  | sends (v : Int) (tasks : List Task) : Moves k (.working (.send v :: tasks)) (.sending v tasks)
  | sent (v : Int) (tasks : List Task) (inside : 0 ≤ v ∧ v < k.numberOfVMs) :
      Moves k (.sending v tasks) (.working tasks)
  | closes : Moves k (.working []) .sendingFin
  | closed : Moves k .sendingFin .finished

theorem step_task {k : Simulation} {s next : Processes} {event : ProcessEvent}
    (taken : processStep k s event = some next) (t : Nat) :
    next.tasks t = s.tasks t ∨ ProcessTask.Moves k (s.tasks t) (next.tasks t) := by
  have one {u : Nat} {task : ProcessTask} (moves : ProcessTask.Moves k (s.tasks u) task) :
      Function.update s.tasks u task t = s.tasks t ∨
        ProcessTask.Moves k (s.tasks t) (Function.update s.tasks u task t) := by
    by_cases here : t = u
    · subst here
      rw [Function.update_self]
      exact .inr moves
    · exact .inl (Function.update_of_ne here ..)
  cases counts : event.productive with
  | false => exact .inl (congrFun (organizer_keeps taken counts).2.1 t)
  | true =>
    cases event with
    | create =>
      obtain ⟨_, rfl⟩ := create_some taken
      exact .inl rfl
    | execute u =>
      obtain ⟨tasks, working, _, rfl⟩ := execute_some taken
      exact one (working ▸ .executed tasks)
    | send party message =>
      have calls := send_some.mp taken
      cases party with
      | task u =>
        simp only [Processes.call] at calls
        split at calls
        next =>
          obtain ⟨⟨called, task⟩, call, same⟩ := Option.map_eq_some_iff.mp calls
          cases same
          unfold ProcessTask.call at call
          split at call
          next v tasks working =>
            cases call
            exact one (working ▸ .sends v tasks)
          next working =>
            cases call
            exact one (working ▸ .closes)
          next => contradiction
        next => contradiction
      | finalize =>
        obtain ⟨⟨called, finalize⟩, _, same⟩ := Option.map_eq_some_iff.mp calls
        cases same
        exact .inl rfl
      | organizer => contradiction
    | transfer party message =>
      obtain ⟨mid, blocked, received⟩ := transfer_some.mp taken
      have kept : next.tasks = mid.tasks := by
        obtain ⟨mailbox, data⟩ := message
        cases mailbox with
        | vm v => exact (receive_vm received).2.2.2.1
        | fin =>
          obtain ⟨_, _, _, rfl⟩ := receive_fin received
          rfl
      rw [kept]
      cases party with
      | task u =>
        obtain ⟨⟨sent, task⟩, was, same⟩ := Option.map_eq_some_iff.mp blocked
        cases same
        obtain ⟨_, ⟨v, tasks, sending, rfl, rfl⟩ | ⟨sending, _, rfl⟩⟩ := ProcessTask.blocked_some was
        · obtain ⟨low, high, _⟩ := receive_vm received
          exact one (sending ▸ .sent v tasks ⟨low, high⟩)
        · exact one (sending ▸ .closed)
      | finalize =>
        obtain ⟨⟨sent, finalize⟩, _, same⟩ := Option.map_eq_some_iff.mp blocked
        cases same
        exact .inl rfl
      | organizer => contradiction
    | proceed =>
      obtain ⟨finalize, _, rfl⟩ := Option.map_eq_some_iff.mp taken
      exact .inl rfl
    | migrate vm => contradiction
    | retry party message => contradiction

/-- A process that still has to send to the VM, or is blocked in the send. -/
def ProcessTask.Owes (target : Int) : ProcessTask → Prop
  | .working tasks => Task.send target ∈ tasks
  | .sending v tasks => v = target ∨ Task.send target ∈ tasks
  | _ => False

/-- No send is made up on the way. -/
theorem ProcessTask.Moves.owed {k : Simulation} {task next : ProcessTask} (moves : task.Moves k next)
    {target : Int} (owes : next.Owes target) : task.Owes target := by
  cases moves with
  | executed tasks => exact List.mem_cons_of_mem _ owes
  | sends v tasks =>
    rcases owes with rfl | later
    · exact List.mem_cons_self
    · exact List.mem_cons_of_mem _ later
  | sent v tasks => exact .inr owes
  | closes => cases owes
  | closed => cases owes

/-- A send to nobody is owed for ever. -/
theorem ProcessTask.Moves.owes {k : Simulation} {task next : ProcessTask} (moves : task.Moves k next)
    {target : Int} (nobody : ¬ (0 ≤ target ∧ target < k.numberOfVMs)) (owes : task.Owes target) :
    next.Owes target := by
  cases moves with
  | executed tasks => exact (List.mem_cons.mp owes).resolve_left Task.noConfusion
  | sends v tasks =>
    rcases List.mem_cons.mp owes with same | later
    · exact .inl (Task.send.inj same).symm
    · exact .inr later
  | sent v tasks inside => exact owes.resolve_left fun same => nobody (same ▸ inside)
  | closes => cases owes
  | closed => cases owes

/-- A simulation, of processes whose work loops end, makes a bounded number of steps, the organizer's and the sends
that fail apart. All its runs that cannot be extended by such a step come to the end, with every process through and
every listener ended, if and only if all sends go to VMs that there are. -/
theorem organizer_completes (k : Simulation) :
    (∀ events s, Runs.run (processStep k) k.start events = some s →
      events.countP ProcessEvent.productive ≤ k.work) ∧
    ((∀ events s, Runs.run (processStep k) k.start events = some s →
        Exhausted (processStep k) ProcessEvent.productive s → Complete k s) ↔
      ∀ t < k.numberOfProcess, ∀ v, Task.send v ∈ k.program t → 0 ≤ v ∧ v < k.numberOfVMs) := by
  have descends := processStep_descends k
  have initial : ∃ past, Orderly k past k.start := ⟨[], start_orderly k⟩
  refine ⟨fun events s reached => ?_, ?_, ?_⟩
  · have bound := descends.run_le initial reached
    have whole : k.start.left k = k.work := rfl
    omega
  · intro completes t inside v sends
    by_contra nobody
    obtain ⟨events, s, reached, exhausted⟩ := descends.exhausts initial
    have owes : (s.tasks t).Owes v := Runs.run_invariant (fun mid => (mid.tasks t).Owes v)
      (fun _ _ _ before taken => (step_task taken t).elim (fun same => same ▸ before) (·.owes nobody before))
      sends reached
    rw [(completes events s reached exhausted).tasks t inside] at owes
    cases owes
  · intro valid events s reached exhausted
    have orderly := run_orderly reached
    obtain ⟨created, stopped⟩ := task_stops orderly exhausted
    have finished (t : Nat) (inside : t < k.numberOfProcess) : s.tasks t = .finished := by
      refine (stopped t inside).resolve_right ?_
      rintro ⟨v, tasks, sending, nobody⟩
      have owed : ∀ target, (s.tasks t).Owes target → Task.send target ∈ k.program t :=
        Runs.run_invariant (fun mid => ∀ target, (mid.tasks t).Owes target → Task.send target ∈ k.program t)
          (fun _ _ _ before taken target owes => before target
            ((step_task taken t).elim (fun same => same ▸ owes) (·.owed owes)))
          (fun _ owes => owes) reached
      exact nobody (valid t inside v (owed v (by rw [sending]; exact .inl rfl)))
    have ended := finalize_stops orderly (fun t inside => by rw [finished t inside]; rfl) exhausted
    refine ⟨created, finished, fun v low high => (orderly.told.ended v).mpr ⟨low, ?_⟩, ended⟩
    rw [ended]
    exact high

end Hpvc.Organizer
