import Hpvc.Library.Decimal
import Hpvc.TaskAccounting

/-! Accounting of simgrid-project: random numbers in [0, 1) are passed with `%f` and
read with `atof`, so a process computes its need from rounded numbers. -/
namespace Hpvc.Project

/-- The constants of a simulation. -/
structure Machine where
  cpuMaxFlops : ℚ
  vmToHost : Nat
  some_vm : 0 < vmToHost

/-- `ramsize / 10000` -/
def memoryMax : ℚ := 25600

def maxVmNet : ℚ := 125000000

def Machine.netMax (k : Machine) : ℚ := maxVmNet / k.vmToHost

structure ResourceNeed where
  cpu : ℚ
  memory : ℚ
  net : ℚ
  expectedTime : ℚ
  cpuTime : ℚ

def computeResourceNeed (k : Machine) (randTask r m c : ℚ) : ResourceNeed :=
  if randTask < 95 / 100 then
    let r := if r < 1 / 100 then 1 / 100 else r
    let m := if m ≤ 1 / 10 then 1 / 10 else m
    let c := if c ≤ 1 / 10 then 1 / 10 else c
    let net := 1 / c * k.netMax
    let cpuTime := if randTask < 1 / 2 then 200 + 2 / r else 200 - 2 / r
    { cpu := if randTask < 1 / 2 then (200 + 2 / r) * k.cpuMaxFlops else (200 - 2 / r) * k.cpuMaxFlops
      memory := 1 / m * memoryMax
      net := net
      cpuTime := cpuTime
      expectedTime := cpuTime + net / maxVmNet }
  else
    let r := if r < 1 / 1000000 then 1 / 1000000 else r
    let m := if m ≤ 1 / 10 then 1 / 10 else m
    let c := if c ≤ 1 / 10 then 1 / 10 else c
    let net := 1 / c * k.netMax
    { cpu := 20 / r * k.cpuMaxFlops
      memory := 1 / m * memoryMax
      net := net
      cpuTime := 20 / r
      expectedTime := 20 / r + net / maxVmNet }

/-- A random number of `drand48`. -/
structure Random where
  value : ℚ
  nonneg : 0 ≤ value
  below : value < 1

structure TaskParams where
  r : Random
  m : Random
  c : Random
  randTask : Random

/-- The arguments of `process_task` that its need depends on, and its cluster. -/
structure TaskArgv where
  r : List Char
  m : List Char
  c : List Char
  randTask : List Char
  clusterId : List Char

def printArgv (cluster : Nat) (p : TaskParams) : TaskArgv where
  r := Decimal.formatF p.r.value
  m := Decimal.formatF p.m.value
  c := Decimal.formatF p.c.value
  randTask := Decimal.formatF p.randTask.value
  clusterId := Decimal.formatU cluster

def createNeed (k : Machine) (p : TaskParams) : ResourceNeed :=
  computeResourceNeed k p.randTask.value p.r.value p.m.value p.c.value

def processNeed (k : Machine) (argv : TaskArgv) : ResourceNeed :=
  computeResourceNeed k (Decimal.atof argv.randTask) (Decimal.atof argv.r) (Decimal.atof argv.m)
    (Decimal.atof argv.c)

def accounting (k : Machine) : Accounting.Program TaskParams TaskArgv Accounting.Amounts where
  print := printArgv
  charge p := ((createNeed k p).memory, (createNeed k p).net)
  discharge argv := ((processNeed k argv).memory, (processNeed k argv).net)
  cluster argv := Decimal.atoi argv.clusterId
  cluster_print _ _ := Decimal.atoi_formatU _

/-- A task is created and charged at one moment; it ends at a later one. -/
inductive Event where
  | create (cluster home : Nat) (params : TaskParams)
  | finish (k : Nat)
  | migrate (vm : Nat × Nat) (targetPm : Nat)

def step (k : Machine) (s : Accounting.State TaskParams Accounting.Amounts) :
    Event → Option (Accounting.State TaskParams Accounting.Amounts)
  | .create cluster home params =>
    Runs.run (Accounting.step (accounting k)) s [.create cluster home params, .charge s.tasks.length]
  | .finish i => Accounting.step (accounting k) s (.finish i)
  | .migrate vm targetPm => Accounting.step (accounting k) s (.migrate vm targetPm)

/-- A need's divisor that `%f` and `atof` leave as it is: it is raised to 0.1 anyway, or
it has no more than six decimals. -/
def SixDecimals (x : ℚ) : Prop := x ≤ 1 / 10 ∨ ∃ z : Int, x * 1000000 = z

def raised (x : ℚ) : ℚ := if x ≤ 1 / 10 then 1 / 10 else x

theorem need_amounts (k : Machine) (randTask r m c : ℚ) :
    (computeResourceNeed k randTask r m c).memory = 1 / raised m * memoryMax ∧
    (computeResourceNeed k randTask r m c).net = 1 / raised c * k.netMax := by
  unfold computeResourceNeed
  split <;> exact ⟨rfl, rfl⟩

/-- Printing and reading keeps a divisor exactly if it has six decimals, where it counts. -/
theorem raised_print_iff (x : Random) :
    raised (Decimal.atof (Decimal.formatF x.value)) = raised x.value ↔ SixDecimals x.value := by
  obtain ⟨x, nonneg, _⟩ := x
  simp only
  rw [Decimal.atof_formatF nonneg]
  by_cases small : x ≤ 1 / 10
  · have rounded : Decimal.roundHalfEven (x * 1000000) ≤ 100000 :=
      Decimal.roundHalfEven_le (by push_cast; linarith)
    have still : (Decimal.roundHalfEven (x * 1000000) : ℚ) / 1000000 ≤ 1 / 10 := by
      have : (Decimal.roundHalfEven (x * 1000000) : ℚ) ≤ 100000 := by exact_mod_cast rounded
      linarith
    exact iff_of_true (by rw [raised,raised,if_pos still,if_pos small]) (.inl small)
  · have rounded : 100000 ≤ Decimal.roundHalfEven (x * 1000000) :=
      Decimal.le_roundHalfEven (by push_cast; linarith)
    have above : (1 : ℚ) / 10 ≤ (Decimal.roundHalfEven (x * 1000000) : ℚ) / 1000000 := by
      have : (100000 : ℚ) ≤ Decimal.roundHalfEven (x * 1000000) := by exact_mod_cast rounded
      linarith
    have kept : raised ((Decimal.roundHalfEven (x * 1000000) : ℚ) / 1000000) =
        (Decimal.roundHalfEven (x * 1000000) : ℚ) / 1000000 := by
      unfold raised
      split
      next le => exact le_antisymm above le
      next => rfl
    rw [kept,raised,if_neg small,SixDecimals,or_iff_right small]
    constructor
    · intro same
      exact ⟨Decimal.roundHalfEven (x * 1000000), by linarith⟩
    · rintro ⟨z, is⟩
      rw [is,Decimal.roundHalfEven_int,← is]
      ring

/-- When a process computes the need its task was charged with. -/
def ExactNeed (p : TaskParams) : Prop := SixDecimals p.m.value ∧ SixDecimals p.c.value

theorem discharge_eq_iff (k : Machine) (t : Accounting.Task TaskParams) :
    (accounting k).discharge ((accounting k).argv t) = (accounting k).charge t.params ↔
      ExactNeed t.params := by
  have memory : memoryMax ≠ 0 := by norm_num [memoryMax]
  have net : k.netMax ≠ 0 := by
    have := k.some_vm
    unfold Machine.netMax maxVmNet
    positivity
  simp only [accounting,Accounting.Program.argv,processNeed,createNeed,need_amounts,printArgv,
    Prod.mk.injEq,mul_left_inj' memory,mul_left_inj' net,one_div,inv_inj,raised_print_iff,ExactNeed]

/-- What a task that was charged and has not ended holds on its VM. -/
def openEntry (k : Machine) (v : Nat × Nat) (t : Accounting.Task TaskParams) : Accounting.Amounts :=
  if t.vm = v ∧ v.1 = 0 ∧ t.charged = true ∧ t.ended = false then (accounting k).charge t.params else 0

/-- The needs of the tasks charged to a VM and not yet discharged. -/
def owed (k : Machine) (tasks : List (Accounting.Task TaskParams)) (v : Nat × Nat) : Accounting.Amounts :=
  ((tasks.filter fun t => t.vm == v && (t.charged && !t.ended)).map fun t =>
    (accounting k).charge t.params).sum

/-- The properties of the VMs of cluster 0 are what is owed there, and nothing where
every task has ended. -/
structure Balanced (k : Machine) (s : Accounting.State TaskParams Accounting.Amounts) : Prop where
  owed : ∀ i, s.amounts (0, i) = owed k s.tasks (0, i)
  settled : ∀ i, (∀ t ∈ s.tasks, t.vm = (0, i) → t.ended = true) → s.amounts (0, i) = 0

/-- What holds besides: VMs of other clusters have nothing, and all tasks are charged. -/
structure Kept (s : Accounting.State TaskParams Accounting.Amounts) : Prop where
  others : ∀ v, v.1 ≠ 0 → s.amounts v = 0
  charged : ∀ t ∈ s.tasks, t.charged = true

theorem sum_openEntry (k : Machine) (tasks : List (Accounting.Task TaskParams)) (i : Nat) :
    owed k tasks (0, i) = (tasks.map (openEntry k (0, i))).sum := by
  rw [owed,Ledger.sum_filter]
  congr 1
  apply List.map_congr_left
  intro t _
  simp [openEntry]

theorem balanced_iff {k : Machine} {s : Accounting.State TaskParams Accounting.Amounts} (kept : Kept s) :
    Balanced k s ↔ Ledger.Backed (openEntry k) s.amounts s.tasks := by
  constructor
  · intro balanced ⟨cluster, i⟩
    by_cases first : cluster = 0
    · subst first
      rw [balanced.owed i,sum_openEntry]
    · rw [kept.others _ first]
      apply Eq.symm
      apply List.sum_eq_zero
      intro a member
      obtain ⟨t, _, rfl⟩ := List.mem_map.mp member
      simp [openEntry,first]
  · intro backed
    refine ⟨fun i => by rw [backed,sum_openEntry], fun i ended => backed.settled fun t member => ?_⟩
    unfold openEntry
    split
    next on => simp [ended t member on.1] at on
    next => rfl

/-- Creating and charging a task, as one step. -/
theorem create_step (k : Machine) (s : Accounting.State TaskParams Accounting.Amounts) (cluster home : Nat)
    (p : TaskParams) : step k s (.create cluster home p) = some
      { s with
        tasks := s.tasks ++ [⟨(cluster, home), p, true, false⟩]
        amounts := if cluster = 0 then
          Ledger.post s.amounts (cluster, home) ((accounting k).charge p) else s.amounts } := by
  simp [step,Runs.run_cons,Accounting.step]

theorem finish_step {k : Machine} {s next : Accounting.State TaskParams Accounting.Amounts} {i : Nat}
    (taken : step k s (.finish i) = some next) :
    ∃ t, s.tasks[i]? = some t ∧ t.ended = false ∧ next.pm = s.pm ∧
      next.tasks = s.tasks.set i { t with ended := true } ∧
      next.amounts = if t.vm.1 = 0 then
        Ledger.post s.amounts t.vm (-(accounting k).discharge ((accounting k).argv t)) else s.amounts := by
  obtain ⟨t, here, taken⟩ := Option.bind_eq_some_iff.mp taken
  split at taken
  · contradiction
  next running =>
    cases taken
    exact ⟨t, here, by simpa using running, rfl, rfl, by simp⟩

theorem step_kept {k : Machine} {s next : Accounting.State TaskParams Accounting.Amounts} {event : Event}
    (kept : Kept s) (taken : step k s event = some next) : Kept next := by
  have posted (v w : Nat × Nat) (a : Accounting.Amounts) (other : v.1 ≠ 0) :
      (if w.1 = 0 then Ledger.post s.amounts w a else s.amounts) v = 0 := by
    split
    next first =>
      have differs : v ≠ w := fun same => other (same ▸ first)
      simp [Ledger.post_apply,differs,kept.others v other]
    next => exact kept.others v other
  cases event with
  | create cluster home p =>
    cases (create_step k s cluster home p).symm.trans taken
    refine ⟨fun v other => posted v (cluster, home) _ other, fun t member => ?_⟩
    rcases List.mem_append.mp member with old | new
    · exact kept.charged t old
    · rw [List.mem_singleton.mp new]
  | migrate vm targetPm =>
    cases taken
    exact ⟨kept.others, kept.charged⟩
  | finish i =>
    obtain ⟨t, here, _, _, tasks, amounts⟩ := finish_step taken
    refine ⟨fun v other => amounts ▸ posted v t.vm _ other, fun x member => ?_⟩
    rw [tasks] at member
    rcases List.mem_or_eq_of_mem_set member with old | rfl
    · exact kept.charged x old
    · exact kept.charged t (List.mem_of_getElem? here)

/-- A task of cluster 0 ends with the need it was charged with. -/
def EndsExactly (s : Accounting.State TaskParams Accounting.Amounts) : Event → Prop
  | .finish i => ∀ t, s.tasks[i]? = some t → t.ended = false → t.vm.1 = 0 → ExactNeed t.params
  | _ => True

/-- What an event leaves of the balance. -/
theorem step_balanced_iff {k : Machine} {s next : Accounting.State TaskParams Accounting.Amounts} {event : Event}
    (kept : Kept s) (backed : Ledger.Backed (openEntry k) s.amounts s.tasks)
    (taken : step k s event = some next) :
    Ledger.Backed (openEntry k) next.amounts next.tasks ↔ EndsExactly s event := by
  cases event with
  | create cluster home p =>
    cases (create_step k s cluster home p).symm.trans taken
    simp only [Accounting.posted]
    apply iff_of_true
    · apply backed.append_post
      intro v
      by_cases same : (cluster, home) = v
      · subst same
        simp [openEntry]
      · simp [openEntry,same,Ne.symm same]
    · trivial
  | migrate vm targetPm =>
    cases taken
    exact iff_of_true backed trivial
  | finish i =>
    obtain ⟨t, here, running, _, tasks, amounts⟩ := finish_step taken
    have charged := kept.charged t (List.mem_of_getElem? here)
    rw [tasks,amounts,Accounting.posted,backed.post_iff here]
    have condition : EndsExactly s (.finish i) ↔ (t.vm.1 = 0 → ExactNeed t.params) := by
      simp [EndsExactly,here,running]
    rw [condition,← discharge_eq_iff k t]
    by_cases first : t.vm.1 = 0
    · constructor
      · intro accounts _
        have own := accounts t.vm
        simp only [openEntry,first,charged,running,and_self,if_true,Bool.true_eq_false,and_false,
          if_false] at own
        exact (add_neg_eq_zero.mp own.symm).symm
      · intro exact_need v
        by_cases same : t.vm = v
        · subst same
          simp [openEntry,first,charged,running,exact_need first]
        · simp [openEntry,same,Ne.symm same]
    · apply iff_of_true
      · intro v
        by_cases same : t.vm = v
        · subst same
          simp [openEntry,first]
        · simp [openEntry,same,Ne.symm same]
      · exact fun zero => absurd zero first

theorem event_balanced_iff {k : Machine} {s : Accounting.State TaskParams Accounting.Amounts} (event : Event)
    (kept : Kept s) (backed : Ledger.Backed (openEntry k) s.amounts s.tasks) :
    (∀ next, step k s event = some next → Balanced k next) ↔ EndsExactly s event := by
  cases taken : step k s event with
  | some next =>
    rw [← step_balanced_iff kept backed taken,← balanced_iff (step_kept kept taken)]
    simp
  | none =>
    refine iff_of_true (fun _ is => by contradiction) ?_
    cases event with
    | create cluster home p => simp [create_step] at taken
    | migrate _ _ => trivial
    | finish i =>
      intro t here running
      simp [step,Accounting.step,here,running] at taken

/-- In every run: the accounts balance after every event exactly if every task of cluster
0 that ends has divisors of six decimals. -/
theorem project_accounts_iff (k : Machine) (pm : Nat × Nat → Nat) (events : List Event) :
    Runs.Each (step k) (Accounting.start _ _ pm) events
        (fun s event => ∀ next, step k s event = some next → Balanced k next) ↔
      Runs.Each (step k) (Accounting.start _ _ pm) events EndsExactly := by
  refine Runs.each_iff (fun s => Kept s ∧ Ledger.Backed (openEntry k) s.amounts s.tasks) (fun _ _ => True)
    (fun s event good _ => event_balanced_iff event good.1 good.2)
    (fun s event next good _ balanced taken => ?_) ⟨⟨fun _ _ => rfl, by simp [Accounting.start]⟩, fun _ => rfl⟩
    events (fun _ _ _ _ _ _ => trivial)
  have kept := step_kept good.1 taken
  exact ⟨kept, (balanced_iff kept).mp (balanced next taken)⟩

/-- The state of `drand48` after `srand48`, and what a draw makes of it. -/
def srand48 (seed : Nat) : Nat := seed * 2 ^ 16 + 0x330E

def nextState (x : Nat) : Nat := (0x5DEECE66D * x + 0xB) % 2 ^ 48

/-- The number of a draw. -/
def drand48 (x : Nat) : Random where
  value := nextState x / 2 ^ 48
  nonneg := by positivity
  below := by
    have : nextState x < 2 ^ 48 := Nat.mod_lt _ (by decide)
    rw [div_lt_one (by positivity)]
    exact_mod_cast this

/-- The numbers of the first task: the first draw is for its arrival. -/
def firstTask (seed : Nat) : TaskParams :=
  let draw (i : Nat) : Random := drand48 (nextState^[i] (srand48 seed))
  ⟨draw 1, draw 2, draw 3, draw 4⟩

/-- The only task has ended, and its VM is left with memory in use. -/
theorem project_accounts_drift :
    let k : Machine := ⟨1000000000, 5, by decide⟩
    ∃ final, Runs.run (step k) (Accounting.start _ _ fun _ => 0) [.create 0 0 (firstTask 1), .finish 0] =
        some final ∧ (∀ t ∈ final.tasks, t.ended = true) ∧ final.amounts (0, 0) ≠ 0 ∧ ¬ Balanced k final := by
  intro k
  obtain ⟨final, h⟩ : ∃ final, Runs.run (step k) (Accounting.start _ _ fun _ => 0)
      [.create 0 0 (firstTask 1), .finish 0] = some final := ⟨_, rfl⟩
  have left : (final.amounts (0, 0)).1 ≠ 0 := by
    cases h
    decide +kernel
  have ended : ∀ t ∈ final.tasks, t.ended = true := by
    cases h
    intro t member
    rw [List.mem_singleton.mp member]
  have drift : final.amounts (0, 0) ≠ 0 := fun none => left (by rw [none]; rfl)
  exact ⟨final, h, ended, drift, fun balanced => drift (balanced.settled 0 fun t member _ => ended t member)⟩

end Hpvc.Project
