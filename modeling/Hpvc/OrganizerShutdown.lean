import Hpvc.Library.Loads
import Hpvc.OrganizerProcesses

/-! The end of a simulation: `get_finalize` counts the processes that are through, and only then
tells the listeners to end. So none of them ends while a process may still send to it. -/
namespace Hpvc.Organizer

/-- The processes `get_finalize` has heard of. -/
def GetFinalize.fins (k : Simulation) : GetFinalize → Nat
  | .collecting i => i
  | _ => k.numberOfProcess

/-- The VMs `get_finalize` has called `MSG_task_send` for. -/
def GetFinalize.issued (k : Simulation) : GetFinalize → Nat
  | .collecting _ => 0
  | .sleeping => 0
  | .finishing i => i
  | .sendingFinish i => i + 1
  | _ => k.numberOfVMs

/-- The VMs whose listeners have received the message. -/
def GetFinalize.told (k : Simulation) : GetFinalize → Nat
  | .collecting _ => 0
  | .sleeping => 0
  | .finishing i => i
  | .sendingFinish i => i
  | _ => k.numberOfVMs

/-- `get_finalize` is through with the VMs. -/
def GetFinalize.Through : GetFinalize → Prop
  | .closing => True
  | .ended => True
  | _ => False

def ProcessEvent.finishSent : ProcessEvent → Option (Party × Mailbox)
  | .send party message => if message.data = some "finish" then some (party, message.mailbox) else none
  | _ => none

def ProcessEvent.finishTaken : ProcessEvent → Option (Party × Mailbox)
  | .transfer party message => if message.data = some "finish" then some (party, message.mailbox) else none
  | _ => none

/-- One message from `get_finalize` to each of the first VMs, in their order. -/
def finishes (n : Nat) : List (Party × Mailbox) :=
  (List.range n).map fun i : Nat => (.finalize, .vm i)

theorem finishes_succ (n : Nat) : finishes (n + 1) = finishes n ++ [(.finalize, .vm n)] := by
  simp [finishes,List.range_succ]

theorem mem_finishes {n : Nat} {party : Party} {mailbox : Mailbox} :
    (party, mailbox) ∈ finishes n ↔ party = .finalize ∧ ∃ i < n, mailbox = .vm i := by
  simp only [finishes,List.mem_map,List.mem_range,Prod.mk.injEq]
  constructor
  · rintro ⟨i, inside, rfl, rfl⟩
    exact ⟨rfl, i, inside, rfl⟩
  · rintro ⟨rfl, i, inside, rfl⟩
    exact ⟨i, inside, rfl, rfl⟩

/-- The processes that are through are those that were counted. -/
structure Heard (k : Simulation) (s : Processes) : Prop where
  created : s.created ≤ k.numberOfProcess
  waiting : ∀ t, s.created ≤ t → ∃ tasks, s.tasks t = .working tasks
  fins : (List.range k.numberOfProcess).countP (fun t => (s.tasks t).isFinished) = s.finalize.fins k

/-- The listeners that have ended are those that were told. -/
structure Told (k : Simulation) (past : List ProcessEvent) (s : Processes) : Prop where
  inside : s.finalize.issued k ≤ k.numberOfVMs
  ended : ∀ v, s.listeners v = .ended ↔ 0 ≤ v ∧ v < s.finalize.told k
  issued : past.filterMap ProcessEvent.finishSent = finishes (s.finalize.issued k)
  taken : past.filterMap ProcessEvent.finishTaken = finishes (s.finalize.told k)

theorem Heard.fins_le {k : Simulation} {s : Processes} (heard : Heard k s) :
    s.finalize.fins k ≤ k.numberOfProcess := by
  rw [← heard.fins]
  simpa using List.countP_le_length (l := List.range k.numberOfProcess)
    (p := fun t => (s.tasks t).isFinished)

/-- Only a task that exists has left its first phase. -/
theorem Heard.exists_task {k : Simulation} {s : Processes} (heard : Heard k s) {t : Nat}
    (left : ∀ tasks, s.tasks t ≠ .working tasks) : t < s.created := by
  by_contra later
  obtain ⟨tasks, working⟩ := heard.waiting t (Nat.le_of_not_lt later)
  exact left tasks working

theorem countP_update {n t : Nat} (inside : t < n) (tasks : Nat → ProcessTask) (task : ProcessTask) :
    (List.range n).countP (fun i => (Function.update tasks t task i).isFinished) +
        (if (tasks t).isFinished then 1 else 0) =
      (List.range n).countP (fun i => (tasks i).isFinished) + if task.isFinished then 1 else 0 := by
  have moved := Loads.load_move List.nodup_range (List.mem_range.mpr inside)
    (fun i => (tasks i).isFinished) (fun _ => 1) task.isFinished true
  have same : Function.update (fun i => (tasks i).isFinished) t task.isFinished =
      fun i => (Function.update tasks t task i).isFinished := by
    funext i
    exact (Function.apply_update (fun _ => ProcessTask.isFinished) tasks t task i).symm
  rw [Loads.load_one,Loads.load_one,same] at moved
  simpa using moved

/-- A step of a task that does not end it. -/
theorem Heard.moves {k : Simulation} {s next : Processes} (counted : Heard k s) {t : Nat}
    {task : ProcessTask} (created_task : t < s.created) (unfinished : (s.tasks t).isFinished = false)
    (goes_on : task.isFinished = false) (created : next.created = s.created)
    (tasks : next.tasks = Function.update s.tasks t task)
    (fins : next.finalize.fins k = s.finalize.fins k) : Heard k next := by
  constructor
  · rw [created]
    exact counted.created
  · intro i later
    rw [created] at later
    rw [tasks,Function.update_of_ne (by omega)]
    exact counted.waiting i later
  · have balance := countP_update (lt_of_lt_of_le created_task counted.created) s.tasks task
    rw [unfinished,goes_on] at balance
    rw [tasks,fins,← counted.fins]
    simpa using balance

/-- A step that no task takes. -/
theorem Heard.congr {k : Simulation} {s next : Processes} (heard : Heard k s)
    (created : next.created = s.created) (tasks : next.tasks = s.tasks)
    (fins : next.finalize.fins k = s.finalize.fins k) : Heard k next := by
  refine ⟨?_, ?_, ?_⟩
  · rw [created]
    exact heard.created
  · rw [created,tasks]
    exact heard.waiting
  · rw [tasks,fins]
    exact heard.fins

/-- A step without a "finish", which no listener ends in. -/
theorem Told.quiet {k : Simulation} {past : List ProcessEvent} {s next : Processes} (told : Told k past s)
    {event : ProcessEvent} (sent : event.finishSent = none) (taken : event.finishTaken = none)
    (listeners : next.listeners = s.listeners)
    (issued : next.finalize.issued k = s.finalize.issued k)
    (same : next.finalize.told k = s.finalize.told k) : Told k (past ++ [event]) next := by
  constructor
  · rw [issued]
    exact told.inside
  · rw [listeners,same]
    exact told.ended
  · rw [List.filterMap_append,told.issued,issued]
    simp [sent]
  · rw [List.filterMap_append,told.taken,same]
    simp [taken]

/-- What holds after every run. -/
structure Orderly (k : Simulation) (past : List ProcessEvent) (s : Processes) : Prop where
  heard : Heard k s
  told : Told k past s

theorem start_orderly (k : Simulation) : Orderly k [] k.start where
  heard := by
    refine ⟨Nat.zero_le _, fun t _ => ⟨_, rfl⟩, ?_⟩
    simp [Simulation.start,ProcessTask.isFinished,GetFinalize.fins]
  told := by
    refine ⟨Nat.zero_le _, fun v => ?_, rfl, rfl⟩
    simp only [Simulation.start,GetFinalize.told]
    constructor
    · intro ended
      cases ended
    · rintro ⟨low, high⟩
      omega

theorem ProcessTask.call_some {task next : ProcessTask} {message : Message}
    (calls : task.call = some (message, next)) :
    message.data = none ∧ task.isFinished = false ∧ next.isFinished = false := by
  unfold ProcessTask.call at calls
  split at calls
  · cases calls
    exact ⟨rfl, rfl, rfl⟩
  · cases calls
    exact ⟨rfl, rfl, rfl⟩
  · cases calls

theorem ProcessTask.blocked_some {task next : ProcessTask} {message : Message}
    (blocked : task.blocked = some (message, next)) :
    task.isFinished = false ∧ ((∃ v tasks, task = .sending v tasks ∧ message = ⟨.vm v, none⟩ ∧
      next = .working tasks) ∨ task = .sendingFin ∧ message = ⟨.fin, none⟩ ∧ next = .finished) := by
  unfold ProcessTask.blocked at blocked
  split at blocked
  · cases blocked
    exact ⟨rfl, .inl ⟨_, _, rfl, rfl, rfl⟩⟩
  · cases blocked
    exact ⟨rfl, .inr ⟨rfl, rfl, rfl⟩⟩
  · cases blocked

/-- A listener that receives is that of a VM. Without "finish" it goes on. -/
theorem receive_vm {k : Simulation} {s next : Processes} {v : Int} {data : Option String}
    (received : s.receive k ⟨.vm v, data⟩ = some next) :
    0 ≤ v ∧ v < k.numberOfVMs ∧ next.created = s.created ∧ next.tasks = s.tasks ∧
      next.finalize = s.finalize ∧ next.organizer = s.organizer ∧
      next.listeners = Function.update s.listeners v (processMailbox data) ∧
      (data ≠ some "finish" → next.listeners = s.listeners) := by
  simp only [Processes.receive] at received
  split at received
  next able =>
    cases received
    refine ⟨able.1, able.2.1, rfl, rfl, rfl, rfl, rfl, fun other => ?_⟩
    rw [processMailbox,if_neg other,← able.2.2]
    exact Function.update_eq_self v s.listeners
  next => cases received

/-- `fin_mailbox` is only read while processes are missing. -/
theorem receive_fin {k : Simulation} {s next : Processes} {data : Option String}
    (received : s.receive k ⟨.fin, data⟩ = some next) :
    ∃ i < k.numberOfProcess, s.finalize = .collecting i ∧
      next = { s with finalize := .collecting (i + 1) } := by
  simp only [Processes.receive] at received
  split at received
  next i collecting =>
    split at received
    next inside =>
      cases received
      exact ⟨i, inside, collecting, rfl⟩
    next => cases received
  next => cases received

theorem create_some {k : Simulation} {s next : Processes} (taken : processStep k s .create = some next) :
    s.created < k.numberOfProcess ∧ next = { s with created := s.created + 1 } := by
  simp only [processStep] at taken
  split at taken
  next more => exact ⟨more, (Option.some.inj taken).symm⟩
  next => cases taken

theorem execute_some {k : Simulation} {s next : Processes} {t : Nat}
    (taken : processStep k s (.execute t) = some next) : ∃ tasks, s.tasks t = .working (.execute :: tasks) ∧
      t < s.created ∧ next = { s with tasks := Function.update s.tasks t (.working tasks) } := by
  simp only [processStep] at taken
  split at taken
  next tasks working =>
    split at taken
    next created_task => exact ⟨tasks, working, created_task, (Option.some.inj taken).symm⟩
    next => cases taken
  next => cases taken

theorem migrate_some {k : Simulation} {s next : Processes} {vm : Nat}
    (taken : processStep k s (.migrate vm) = some next) : next = { s with organizer := .migrating vm } := by
  simp only [processStep] at taken
  split at taken
  next =>
    split at taken
    next => exact (Option.some.inj taken).symm
    next => cases taken
  next => cases taken

/-- A send that fails leaves everything as it is. -/
theorem retry_some {k : Simulation} {s next : Processes} {party : Party} {message : Message}
    (taken : processStep k s (.retry party message) = some next) : next = s := by
  obtain ⟨⟨sent, mid⟩, _, is⟩ := Option.bind_eq_some_iff.mp taken
  dsimp only at is
  split at is
  next => exact (Option.some.inj is).symm
  next => cases is

theorem send_some {k : Simulation} {s next : Processes} {party : Party} {message : Message} :
    processStep k s (.send party message) = some next ↔ s.call k party = some (message, next) := by
  simp only [processStep,Option.bind_eq_some_iff]
  constructor
  · rintro ⟨⟨called, after⟩, calls, is⟩
    dsimp only at is
    split at is
    next same =>
      cases is
      rw [calls,same]
    next => cases is
  · intro calls
    exact ⟨_, calls, if_pos rfl⟩

theorem transfer_some {k : Simulation} {s next : Processes} {party : Party} {message : Message} :
    processStep k s (.transfer party message) = some next ↔
      ∃ mid, s.blocked party = some (message, mid) ∧ mid.receive k message = some next := by
  simp only [processStep,Option.bind_eq_some_iff]
  constructor
  · rintro ⟨⟨sent, mid⟩, blocked, is⟩
    dsimp only at is
    split at is
    next same => exact ⟨mid, by rw [blocked,same], is⟩
    next => cases is
  · rintro ⟨mid, blocked, received⟩
    exact ⟨_, blocked, by rw [if_pos rfl,received]⟩

theorem send_orderly {k : Simulation} {past : List ProcessEvent} {s next : Processes} {party : Party}
    {message : Message} (orderly : Orderly k past s) (calls : s.call k party = some (message, next)) :
    Orderly k (past ++ [.send party message]) next := by
  cases party with
  | task t =>
    simp only [Processes.call] at calls
    split at calls
    next created_task =>
      obtain ⟨⟨called, task⟩, call, same⟩ := Option.map_eq_some_iff.mp calls
      cases same
      obtain ⟨data, unfinished, goes_on⟩ := ProcessTask.call_some call
      refine ⟨orderly.heard.moves created_task unfinished goes_on rfl rfl rfl, ?_⟩
      exact orderly.told.quiet (by simp [ProcessEvent.finishSent,data]) rfl rfl rfl rfl
    next => cases calls
  | finalize =>
    obtain ⟨⟨called, finalize⟩, call, same⟩ := Option.map_eq_some_iff.mp calls
    cases same
    unfold GetFinalize.call at call
    split at call
    next i finishing =>
      split at call
      next inside =>
        cases call
        obtain ⟨heard, told⟩ := orderly
        refine ⟨heard.congr rfl rfl (by rw [finishing]; rfl), ?_⟩
        obtain ⟨_, ended, issued, taken⟩ := told
        rw [finishing] at ended issued taken
        refine ⟨inside, ended, ?_, ?_⟩
        · rw [List.filterMap_append,issued]
          exact (finishes_succ i).symm
        · rw [List.filterMap_append,taken]
          exact List.append_nil _
      next => cases call
    next => cases call
  | organizer =>
    obtain ⟨⟨called, organizer⟩, call, same⟩ := Option.map_eq_some_iff.mp calls
    cases same
    have data : message.data = none := by
      unfold Manager.call at call
      split at call
      · cases call
        rfl
      · cases call
    refine ⟨orderly.heard.congr rfl rfl rfl, ?_⟩
    exact orderly.told.quiet (by simp [ProcessEvent.finishSent,data]) rfl rfl rfl rfl

/-- The process that is heard of is one that was not counted before. -/
theorem fin_heard {k : Simulation} {s : Processes} {i t : Nat} (heard : Heard k s)
    (collecting : s.finalize = .collecting i) (sending : s.tasks t = .sendingFin) :
    Heard k { s with tasks := Function.update s.tasks t .finished, finalize := .collecting (i + 1) } := by
  have created_task := heard.exists_task (t := t) (by simp [sending])
  refine ⟨heard.created, fun u later => ?_, ?_⟩
  · dsimp only at later ⊢
    rw [Function.update_of_ne (by omega)]
    exact heard.waiting u later
  · have balance := countP_update (lt_of_lt_of_le created_task heard.created) s.tasks .finished
    have fins := heard.fins
    rw [collecting] at fins
    rw [sending,fins] at balance
    simpa [ProcessTask.isFinished,GetFinalize.fins] using balance

/-- The listener of the next VM ends. -/
theorem finish_told {k : Simulation} {past : List ProcessEvent} {s next : Processes} {i : Nat}
    (told : Told k past s) (sending : s.finalize = .sendingFinish i)
    (finalize : next.finalize = .finishing (i + 1))
    (listeners : next.listeners = Function.update s.listeners (i : Int) .ended) :
    Told k (past ++ [.transfer .finalize ⟨.vm i, some "finish"⟩]) next := by
  obtain ⟨inside, ended, issued, taken⟩ := told
  rw [sending] at inside ended issued taken
  refine ⟨?_, fun v => ?_, ?_, ?_⟩
  · rw [finalize]
    exact inside
  · rw [finalize,listeners]
    have before := ended v
    simp only [GetFinalize.told] at before ⊢
    by_cases here : v = i
    · subst here
      rw [Function.update_self]
      constructor
      · intro _
        omega
      · intro _
        rfl
    · rw [Function.update_of_ne here,before]
      omega
  · rw [finalize,List.filterMap_append,issued]
    exact List.append_nil _
  · rw [finalize,List.filterMap_append,taken]
    exact (finishes_succ i).symm

theorem transfer_orderly {k : Simulation} {past : List ProcessEvent} {s mid next : Processes} {party : Party}
    {message : Message} (orderly : Orderly k past s) (blocked : s.blocked party = some (message, mid))
    (received : mid.receive k message = some next) :
    Orderly k (past ++ [.transfer party message]) next := by
  cases party with
  | task t =>
    obtain ⟨⟨sent, task⟩, was, same⟩ := Option.map_eq_some_iff.mp blocked
    cases same
    obtain ⟨unfinished, ⟨v, tasks, sending, rfl, rfl⟩ | ⟨sending, rfl, rfl⟩⟩ := ProcessTask.blocked_some was
    · obtain ⟨_, _, created, tasks_eq, finalize, _, _, listeners⟩ := receive_vm received
      have created_task := orderly.heard.exists_task (t := t) (by simp [sending])
      refine ⟨orderly.heard.moves created_task unfinished rfl created tasks_eq (by rw [finalize]), ?_⟩
      exact orderly.told.quiet rfl rfl (listeners (by simp)) (by rw [finalize]) (by rw [finalize])
    · obtain ⟨i, _, collecting, rfl⟩ := receive_fin received
      refine ⟨fin_heard orderly.heard collecting sending, ?_⟩
      dsimp only at collecting
      exact orderly.told.quiet rfl rfl rfl (by rw [collecting]; rfl) (by rw [collecting]; rfl)
  | finalize =>
    obtain ⟨⟨sent, finalize⟩, was, same⟩ := Option.map_eq_some_iff.mp blocked
    cases same
    unfold GetFinalize.blocked at was
    split at was
    next i sending =>
      cases was
      obtain ⟨_, _, created, tasks, finalize, _, listeners, _⟩ := receive_vm received
      refine ⟨orderly.heard.congr created tasks (by rw [finalize,sending]; rfl), ?_⟩
      exact finish_told orderly.told sending finalize listeners
    next => cases was
  | organizer =>
    obtain ⟨⟨sent, organizer⟩, was, same⟩ := Option.map_eq_some_iff.mp blocked
    cases same
    unfold Manager.blocked at was
    split at was
    next vm sending =>
      cases was
      obtain ⟨_, _, created, tasks, finalize, _, _, listeners⟩ := receive_vm received
      refine ⟨orderly.heard.congr created tasks (by rw [finalize]), ?_⟩
      exact orderly.told.quiet rfl rfl (listeners (by simp)) (by rw [finalize]) (by rw [finalize])
    next => cases was

/-- `get_finalize` leaves a loop when its counter says so. -/
theorem proceed_orderly {k : Simulation} {past : List ProcessEvent} {s next : Processes}
    {finalize : GetFinalize} (orderly : Orderly k past s) (proceeds : s.finalize.proceed k = some finalize)
    (created : next.created = s.created) (tasks : next.tasks = s.tasks)
    (listeners : next.listeners = s.listeners) (is : next.finalize = finalize) :
    Orderly k (past ++ [.proceed]) next := by
  have fins_le := orderly.heard.fins_le
  have inside := orderly.told.inside
  have same : finalize.fins k = s.finalize.fins k ∧ finalize.issued k = s.finalize.issued k ∧
      finalize.told k = s.finalize.told k := by
    generalize s.finalize = before at proceeds fins_le inside
    cases before with
    | collecting i =>
      simp only [GetFinalize.proceed] at proceeds
      split at proceeds
      next => cases proceeds
      next all =>
        cases proceeds
        simp only [GetFinalize.fins] at fins_le
        have everyone : k.numberOfProcess = i := by omega
        exact ⟨everyone, rfl, rfl⟩
    | finishing i =>
      simp only [GetFinalize.proceed] at proceeds
      split at proceeds
      next => cases proceeds
      next all =>
        cases proceeds
        simp only [GetFinalize.issued] at inside
        have last : i = k.numberOfVMs := by omega
        exact ⟨rfl, last.symm, last.symm⟩
    | sleeping =>
      cases proceeds
      exact ⟨rfl, rfl, rfl⟩
    | closing =>
      cases proceeds
      exact ⟨rfl, rfl, rfl⟩
    | sendingFinish i => cases proceeds
    | ended => cases proceeds
  rw [← is] at same
  exact ⟨orderly.heard.congr created tasks same.1, orderly.told.quiet rfl rfl listeners same.2.1 same.2.2⟩

theorem step_orderly {k : Simulation} {past : List ProcessEvent} {s next : Processes} {event : ProcessEvent}
    (orderly : Orderly k past s) (taken : processStep k s event = some next) :
    Orderly k (past ++ [event]) next := by
  cases event with
  | create =>
    obtain ⟨more, rfl⟩ := create_some taken
    obtain ⟨_, waiting, fins⟩ := orderly.heard
    refine ⟨⟨more, fun t later => waiting t (Nat.le_of_succ_le later), fins⟩, ?_⟩
    exact orderly.told.quiet rfl rfl rfl rfl rfl
  | execute t =>
    obtain ⟨tasks, working, created_task, rfl⟩ := execute_some taken
    refine ⟨orderly.heard.moves created_task (by rw [working]; rfl) rfl rfl rfl rfl, ?_⟩
    exact orderly.told.quiet rfl rfl rfl rfl rfl
  | migrate vm =>
    obtain rfl := migrate_some taken
    exact ⟨orderly.heard.congr rfl rfl rfl, orderly.told.quiet rfl rfl rfl rfl rfl⟩
  | send party message => exact send_orderly orderly (send_some.mp taken)
  | retry party message =>
    obtain rfl := retry_some taken
    exact ⟨orderly.heard, orderly.told.quiet rfl rfl rfl rfl rfl⟩
  | transfer party message =>
    obtain ⟨mid, blocked, received⟩ := transfer_some.mp taken
    exact transfer_orderly orderly blocked received
  | proceed =>
    obtain ⟨finalize, proceeds, rfl⟩ := Option.map_eq_some_iff.mp taken
    exact proceed_orderly orderly proceeds rfl rfl rfl rfl

theorem run_orderly {k : Simulation} {events : List ProcessEvent} {s : Processes}
    (reached : Runs.run (processStep k) k.start events = some s) : Orderly k events s := by
  apply Runs.run_history (Orderly k) (start_orderly k) _ reached
  intro past mid event next _ orderly taken
  exact step_orderly orderly taken

/-- While a process is missing, no VM is told anything. -/
theorem Orderly.early {k : Simulation} {past : List ProcessEvent} {s : Processes} (orderly : Orderly k past s)
    {t : Nat} (inside : t < k.numberOfProcess) (unfinished : (s.tasks t).isFinished = false) :
    (∃ i < k.numberOfProcess, s.finalize = .collecting i) ∧
      (∀ v, s.listeners v = .receiving) ∧ past.filterMap ProcessEvent.finishSent = [] := by
  have missing : s.finalize.fins k ≠ k.numberOfProcess := by
    intro all
    have everyone := List.countP_eq_length.mp
      (orderly.heard.fins.trans (all.trans List.length_range.symm)) t (List.mem_range.mpr inside)
    rw [unfinished] at everyone
    cases everyone
  have fins_le := orderly.heard.fins_le
  have collecting : ∃ i < k.numberOfProcess, s.finalize = .collecting i := by
    cases is : s.finalize with
    | collecting i =>
      rw [is] at missing fins_le
      exact ⟨i, lt_of_le_of_ne fins_le missing, rfl⟩
    | _ =>
      rw [is] at missing
      exact absurd rfl missing
  obtain ⟨i, _, is⟩ := id collecting
  obtain ⟨_, ended, issued, _⟩ := orderly.told
  rw [is] at ended issued
  refine ⟨collecting, fun v => ?_, issued⟩
  cases hears : s.listeners v with
  | receiving => rfl
  | ended =>
    obtain ⟨low, high⟩ := (ended v).mp hears
    simp only [GetFinalize.told] at high
    omega

/-- While a process still works, so do all listeners. -/
theorem Orderly.listens {k : Simulation} {past : List ProcessEvent} {s : Processes}
    (orderly : Orderly k past s) {t : Nat} (created_task : t < s.created)
    (unfinished : (s.tasks t).isFinished = false) :
    (∃ i < k.numberOfProcess, s.finalize = .collecting i) ∧ ∀ v, s.listeners v = .receiving := by
  obtain ⟨collecting, listens, _⟩ :=
    orderly.early (lt_of_lt_of_le created_task orderly.heard.created) unfinished
  exact ⟨collecting, listens⟩

theorem send_listens {k : Simulation} {past : List ProcessEvent} {s next : Processes} {t : Nat}
    {message : Message} (orderly : Orderly k past s)
    (calls : s.call k (.task t) = some (message, next)) (v : Int) : s.listeners v = .receiving := by
  simp only [Processes.call] at calls
  split at calls
  next created_task =>
    obtain ⟨⟨called, task⟩, call, _⟩ := Option.map_eq_some_iff.mp calls
    exact (orderly.listens created_task (ProcessTask.call_some call).2.1).2 v
  next => cases calls

/-- What a process is blocked with is received by a listener, or counted by `get_finalize`. -/
theorem blocked_received {k : Simulation} {past : List ProcessEvent} {s mid : Processes} {t : Nat}
    {message : Message} (orderly : Orderly k past s) (blocked : s.blocked (.task t) = some (message, mid))
    (is_mailbox : ∀ v, message.mailbox = .vm v → 0 ≤ v ∧ v < k.numberOfVMs) :
    ∃ next, mid.receive k message = some next := by
  obtain ⟨⟨sent, task⟩, was, same⟩ := Option.map_eq_some_iff.mp blocked
  cases same
  have created_task := orderly.heard.exists_task (t := t) (by
    intro tasks working
    rw [working] at was
    cases was)
  obtain ⟨unfinished, is⟩ := ProcessTask.blocked_some was
  obtain ⟨⟨i, more, collecting⟩, listens⟩ := orderly.listens created_task unfinished
  rcases is with ⟨v, tasks, _, rfl, _⟩ | ⟨_, rfl, _⟩
  · obtain ⟨low, high⟩ := is_mailbox v rfl
    exact ⟨_, if_pos ⟨low, high, listens v⟩⟩
  · refine ⟨{ s with
      tasks := Function.update s.tasks t task
      finalize := .collecting (i + 1) }, ?_⟩
    simp [Processes.receive,collecting,more]

/-- The steps that `get_finalize` still makes before it is through with the VMs. -/
def GetFinalize.left (k : Simulation) : GetFinalize → Nat
  | .collecting _ => 2 * k.numberOfVMs + 3
  | .sleeping => 2 * k.numberOfVMs + 2
  | .finishing i => 2 * (k.numberOfVMs - i) + 1
  | .sendingFinish i => 2 * (k.numberOfVMs - i)
  | _ => 0

/-- When all processes are through, `get_finalize` always has a step of its own: the listener it
sends to is still there. -/
theorem finalize_goes_on {k : Simulation} {past : List ProcessEvent} {s : Processes}
    (orderly : Orderly k past s) (everyone : ∀ t < k.numberOfProcess, (s.tasks t).isFinished = true)
    (working : ¬ s.finalize.Through) :
    ∃ event next, processStep k s event = some next ∧ next.tasks = s.tasks ∧ next.organizer = s.organizer ∧
      next.finalize.left k < s.finalize.left k := by
  have proceeds {finalize : GetFinalize} (able : s.finalize.proceed k = some finalize)
      (goes_on : finalize ≠ .ended) (less : finalize.left k < s.finalize.left k) :
      ∃ event next, processStep k s event = some next ∧ next.tasks = s.tasks ∧
        next.organizer = s.organizer ∧ next.finalize.left k < s.finalize.left k := by
    refine ⟨.proceed, _, Option.map_eq_some_iff.mpr ⟨finalize, able, rfl⟩, rfl, ?_, less⟩
    cases finalize <;> first | rfl | contradiction
  have fins : s.finalize.fins k = k.numberOfProcess := by
    rw [← orderly.heard.fins,List.countP_eq_length.mpr,List.length_range]
    intro t member
    exact everyone t (List.mem_range.mp member)
  have inside := orderly.told.inside
  cases is : s.finalize with
  | collecting i =>
    rw [is] at fins proceeds
    simp only [GetFinalize.fins] at fins
    have able : (GetFinalize.collecting i).proceed k = some .sleeping := if_neg (by omega)
    exact proceeds able (by simp) (Nat.lt_succ_self _)
  | sleeping =>
    rw [is] at proceeds
    exact proceeds rfl (by simp) (Nat.lt_succ_self _)
  | finishing i =>
    by_cases last : i < k.numberOfVMs
    · refine ⟨.send .finalize ⟨.vm i, some "finish"⟩, { s with finalize := .sendingFinish i },
        send_some.mpr ?_, rfl, rfl, Nat.lt_succ_self _⟩
      simp only [Processes.call,is,GetFinalize.call,if_pos last,Option.map_some]
    · rw [is] at proceeds
      have able : (GetFinalize.finishing i).proceed k = some .closing := if_neg last
      exact proceeds able (by simp) (Nat.succ_pos _)
  | sendingFinish i =>
    rw [is] at inside
    simp only [GetFinalize.issued] at inside
    have listens : s.listeners i = .receiving := by
      cases hears : s.listeners i with
      | receiving => rfl
      | ended =>
        have told := ((orderly.told.ended i).mp hears).2
        rw [is] at told
        exact absurd told (lt_irrefl _)
    have blocked : s.blocked .finalize =
        some (⟨.vm i, some "finish"⟩, { s with finalize := .finishing (i + 1) }) := by
      simp only [Processes.blocked,is,GetFinalize.blocked,Option.map_some]
    have able : 0 ≤ (i : Int) ∧ (i : Int) < k.numberOfVMs ∧ s.listeners i = .receiving :=
      ⟨by omega, by omega, listens⟩
    refine ⟨.transfer .finalize ⟨.vm i, some "finish"⟩, _,
      transfer_some.mpr ⟨_, blocked, if_pos able⟩, rfl, rfl, ?_⟩
    simp only [GetFinalize.left]
    omega
  | closing => exact absurd (by rw [is]; trivial) working
  | ended => exact absurd (by rw [is]; trivial) working

/-- So it gets through, with the organizer as it is. -/
theorem finalize_through {k : Simulation} {past : List ProcessEvent} {s : Processes}
    (orderly : Orderly k past s) (everyone : ∀ t < k.numberOfProcess, (s.tasks t).isFinished = true) :
    ∃ more final, Runs.run (processStep k) s more = some final ∧ final.finalize.Through ∧
      final.organizer = s.organizer := by
  apply Runs.run_reaches (fun mid => (∃ past, Orderly k past mid) ∧
      (∀ t < k.numberOfProcess, (mid.tasks t).isFinished = true) ∧ mid.organizer = s.organizer)
    (fun mid => mid.finalize.Through ∧ mid.organizer = s.organizer) (fun mid => mid.finalize.left k) _
    ⟨⟨past, orderly⟩, everyone, rfl⟩
  rintro mid ⟨⟨before, orderly⟩, everyone, organizer⟩ working
  obtain ⟨event, next, taken, tasks, same, nearer⟩ := finalize_goes_on orderly everyone
    fun through => working ⟨through, organizer⟩
  exact ⟨event, next, taken, ⟨⟨_, step_orderly orderly taken⟩, by rw [tasks]; exact everyone, same.trans organizer⟩,
    nearer⟩

/-- What the shutdown owes to the processes that are still working. -/
structure NothingStranded (k : Simulation) (events : List ProcessEvent) (s : Processes) : Prop where
  /-- Before the last fin message, no "finish" is sent and no listener ends. -/
  unfinished : (∃ t < k.numberOfProcess, (s.tasks t).isFinished = false) →
    events.filterMap ProcessEvent.finishSent = [] ∧ ∀ v, s.listeners v = .receiving
  /-- No process sends to a listener that has ended, or is blocked in such a send. -/
  issued : Runs.Each (processStep k) k.start events fun mid event =>
    ∀ t v data, event = .send (.task t) ⟨.vm v, data⟩ → mid.listeners v = .receiving
  blocked : ∀ t v tasks, s.tasks t = .sending v tasks → s.listeners v = .receiving
  /-- What a process is blocked with can be received at once, if there is such a mailbox. -/
  received : ∀ t message mid, s.blocked (.task t) = some (message, mid) →
    (∀ v, message.mailbox = .vm v → 0 ≤ v ∧ v < k.numberOfVMs) →
    ∃ next, processStep k s (.transfer (.task t) message) = some next
  /-- A listener ends with a "finish" from `get_finalize` and with nothing else. -/
  ended : ∀ v, s.listeners v = .ended ↔
    ProcessEvent.transfer .finalize ⟨.vm v, some "finish"⟩ ∈ events
  /-- Only `get_finalize` sends "finish": one to each VM in turn, and to all before it goes on. -/
  each_once : ∃ n ≤ k.numberOfVMs, events.filterMap ProcessEvent.finishSent = finishes n ∧
    (s.finalize.Through → n = k.numberOfVMs)
  /-- After the last fin message `get_finalize` can get through. -/
  ends : (∀ t < k.numberOfProcess, (s.tasks t).isFinished = true) →
    ∃ more final, Runs.run (processStep k) s more = some final ∧ final.finalize.Through

theorem finishTaken_eq_some {event : ProcessEvent} {party : Party} {mailbox : Mailbox} :
    event.finishTaken = some (party, mailbox) ↔ event = .transfer party ⟨mailbox, some "finish"⟩ := by
  cases event with
  | transfer by_party message =>
    obtain ⟨mailbox, data⟩ := message
    simp only [ProcessEvent.finishTaken,ProcessEvent.transfer.injEq,Message.mk.injEq]
    split
    next is => simp [is]
    next other => simp [other]
  | _ => simp [ProcessEvent.finishTaken]

theorem Orderly.ended {k : Simulation} {past : List ProcessEvent} {s : Processes} (orderly : Orderly k past s)
    (v : Int) : s.listeners v = .ended ↔
      ProcessEvent.transfer .finalize ⟨.vm v, some "finish"⟩ ∈ past := by
  have listed : ProcessEvent.transfer .finalize ⟨.vm v, some "finish"⟩ ∈ past ↔
      (Party.finalize, Mailbox.vm v) ∈ past.filterMap ProcessEvent.finishTaken := by
    simp [List.mem_filterMap,finishTaken_eq_some]
  rw [listed,orderly.told.taken,mem_finishes,orderly.told.ended]
  simp only [Mailbox.vm.injEq,true_and]
  constructor
  · rintro ⟨low, high⟩
    exact ⟨v.toNat, by omega, by omega⟩
  · rintro ⟨i, inside, rfl⟩
    omega

/-- For any number of processes and VMs, any programs and any order of the steps, the organizer's
among them: the shutdown strands no process. -/
theorem shutdown_strands_no_task {k : Simulation} {events : List ProcessEvent} {s : Processes}
    (reached : Runs.run (processStep k) k.start events = some s) : NothingStranded k events s := by
  have orderly := run_orderly reached
  constructor
  · rintro ⟨t, inside, unfinished⟩
    obtain ⟨_, listens, none⟩ := orderly.early inside unfinished
    exact ⟨none, listens⟩
  · rintro past event rest mid rfl before t v data rfl
    obtain ⟨same, there, later⟩ := Runs.run_append_some reached
    cases before.symm.trans there
    obtain ⟨next, taken, _⟩ := Option.bind_eq_some_iff.mp later
    exact send_listens (run_orderly before) (send_some.mp taken) v
  · intro t v tasks sending
    have created_task := orderly.heard.exists_task (t := t) (by simp [sending])
    exact (orderly.listens created_task (by rw [sending]; rfl)).2 v
  · intro t message mid blocked is_mailbox
    obtain ⟨next, received⟩ := blocked_received orderly blocked is_mailbox
    exact ⟨next, transfer_some.mpr ⟨_, blocked, received⟩⟩
  · exact orderly.ended
  · refine ⟨_, orderly.told.inside, orderly.told.issued, fun through => ?_⟩
    cases is : s.finalize with
    | closing => rfl
    | ended => rfl
    | _ =>
      rw [is] at through
      cases through
  · intro everyone
    obtain ⟨more, final, ran, through, _⟩ := finalize_through orderly everyone
    exact ⟨more, final, ran, through⟩

/-- Two processes send to each other's VMs and the listeners of both VMs end. -/
theorem shutdown_strands_no_task_two :
    let k : Simulation := ⟨2, 2, fun t => [.execute, .send (1 - t)], true⟩
    let toVM (v : Int) : Message := ⟨.vm v, none⟩
    let fin : Message := ⟨.fin, none⟩
    let finish (v : Int) : Message := ⟨.vm v, some "finish"⟩
    let events : List ProcessEvent :=
      [.create, .execute 0, .send (.task 0) (toVM 1), .create, .retry (.task 0) (toVM 1), .execute 1,
        .transfer (.task 0) (toVM 1), .send (.task 0) fin, .migrate 1, .transfer (.task 0) fin,
        .send (.task 1) (toVM 0), .send .organizer (toVM 1), .transfer .organizer (toVM 1),
        .transfer (.task 1) (toVM 0), .send (.task 1) fin, .transfer (.task 1) fin, .proceed, .proceed,
        .send .finalize (finish 0), .transfer .finalize (finish 0), .send .finalize (finish 1),
        .transfer .finalize (finish 1), .proceed, .proceed]
    ∃ s, Runs.run (processStep k) k.start events = some s ∧ NothingStranded k events s ∧
      s.listeners 0 = .ended ∧ s.listeners 1 = .ended := by
  intro k toVM fin finish events
  have ends : (Runs.run (processStep k) k.start events).map (fun s => (s.listeners 0, s.listeners 1)) =
      some (.ended, .ended) := by decide +kernel
  obtain ⟨s, reached, both⟩ := Option.map_eq_some_iff.mp ends
  obtain ⟨first, second⟩ := Prod.mk.inj both
  exact ⟨s, reached, shutdown_strands_no_task reached, first, second⟩

end Hpvc.Organizer
