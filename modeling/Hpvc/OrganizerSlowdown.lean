import Hpvc.OrganizerCreation
import Hpvc.OrganizerWork
import Mathlib.Tactic.FieldSimp

/-! The slowdown that `destroy_master` prints: each process stores the time it was expected to take, which
depends on the random numbers that it was created with, and is divided by later. -/
namespace Hpvc.Organizer
open Rounding

/-- What a process stores. An expected time that is missing is infinite. -/
structure SlowDown where
  expectedTime : Option ℚ
  actualTime : ℚ

/-- The array `slow_down` of a cluster, which `launch_master` sets to zero. -/
def startSlowDown : Nat → SlowDown := fun _ => ⟨some 0, 0⟩

/-- The end of `process_task`, for a process that took a time. -/
def storeSlowDown (k : Machine) (slowDown : Nat → SlowDown) (report : NewProcess × ℚ) : Nat → SlowDown :=
  Function.update slowDown (Decimal.atoi report.1.workload.processSequence).toNat
    ⟨(processNeed k report.1.workload.argv).expectedTime, report.2⟩

/-- `actual / expected`, for divisors other than zero that are finite. -/
def SlowDown.slowdown (s : SlowDown) : Option ℚ := s.expectedTime.bind (quotient s.actualTime)

/-- The mean that `destroy_master` prints. -/
def meanSlowdown (noProcess : Nat) (slowDown : Nat → SlowDown) : Option ℚ :=
  (Runs.run (fun (mean : ℚ) i => (slowDown i).slowdown.map (mean + ·)) 0 (List.range noProcess)).bind
    fun mean => quotient mean noProcess

/-- No divisor of the need was zero, and the expected time is positive. -/
def ResourceNeed.Defined (need : ResourceNeed) : Prop :=
  ∃ cpuTime expectedTime : ℚ,
    need.cpuTime = some cpuTime ∧ need.expectedTime = some expectedTime ∧ 0 < expectedTime

/-- The random numbers of process `i`. -/
def Creation.task (c : Creation) (rand : RandStream c.machine) (i : Nat) : TaskParams c.machine :=
  (draw rand (7 * i)).task

/-- The needs are defined where they are computed, and the mean once every process has reported. -/
structure SlowdownDefined (c : Creation) (rand : RandStream c.machine) (created : List NewProcess) : Prop where
  create : ∀ i < c.numberOfProcesses, (createNeed c.machine (c.task rand i)).Defined
  process : ∀ p ∈ created, (processNeed c.machine p.workload.argv).Defined
  mean : ∀ reports : List (NewProcess × ℚ), (∀ report ∈ reports, report.1 ∈ created) →
    (∀ p ∈ created, p ∈ reports.map Prod.fst) →
    ∃ mean, meanSlowdown c.numberOfProcesses (reports.foldl (storeSlowDown c.machine) startSlowDown) = some mean

/-- What `main` and `launch_master` derive from the number of VMs, of PMs, and the ratio of computation to
communication; with a process, and a VM on each PM. -/
structure Configured (c : Creation) (numberOfInvolvedHost : Nat) (compPerComm : ℚ) : Prop where
  perHost : c.machine.numberOfVMPerHost = c.numberOfVms / numberOfInvolvedHost
  compTasks : c.machine.compTaskSize = compTaskSizeFloat compPerComm (iterationPerProcessFloat c.numberOfVms)
  commTasks : c.machine.commTaskSize = commTaskSizeFloat compPerComm (iterationPerProcessFloat c.numberOfVms)
  ratio : Ratio compPerComm
  clusters : c.numberOfClusters = 1
  some_process : 1 ≤ c.numberOfProcesses
  some_vm : 1 ≤ c.numberOfVms / numberOfInvolvedHost

/-- A random number zero is no divisor, and a process of the other kind has something to compute or send. -/
def TaskDefined (c : Creation) (compPerComm : ℚ) (p : TaskParams c.machine) : Prop :=
  (p.randTask < c.machine.randMax → p.r ≠ 0) ∧
    (p.randTask = c.machine.randMax → 4 ≤ c.numberOfVms ∨ (2 ≤ c.numberOfVms ∧ compPerComm ≤ 1 / 2 ^ 25))

theorem quotient_of_ne {a b : ℚ} (divisor : b ≠ 0) : quotient a b = some (a / b) := if_neg divisor

theorem first_kind_iff {k : Machine} (p : TaskParams k) :
    ((asInt p.randTask : Int) : ℚ) / k.randMax < 1 ↔ p.randTask < k.randMax := by
  have positive : (0 : ℚ) < k.randMax := by exact_mod_cast k.some_rand
  rw [asInt_rand p.randTask_le,div_lt_one positive]
  exact Nat.cast_lt

/-- The branch that has no lower bound for `r`. -/
theorem createNeed_zero {k : Machine} {p : TaskParams k} (small : p.randTask < k.randMax) (zero : p.r = 0) :
    (createNeed k p).cpuTime = none ∧ (createNeed k p).expectedTime = none := by
  rw [createNeed,computeResourceNeed,if_pos ((first_kind_iff p).mpr small),asInt_rand p.r_le,zero]
  simp [quotient]

/-- A process of the first kind. -/
theorem createNeed_small {k : Machine} (some_vm : 1 ≤ k.numberOfVMPerHost) {p : TaskParams k}
    (small : p.randTask < k.randMax) : (createNeed k p).Defined ↔ p.r ≠ 0 := by
  constructor
  · rintro ⟨_, _, is, _⟩ zero
    rw [(createNeed_zero small zero).1] at is
    contradiction
  · intro nonzero
    have positive : (0 : ℚ) < k.randMax := by exact_mod_cast k.some_rand
    have divisor : (0 : ℚ) < ((p.r : Int) : ℚ) := by exact_mod_cast Nat.pos_of_ne_zero nonzero
    have sends : 0 < 4 / 10 * (maxVmNet / (k.numberOfVMPerHost : ℚ)) / maxVmNet :=
      div_pos (mul_pos (by norm_num) (share_positive some_vm)) (by norm_num [maxVmNet])
    rw [createNeed,computeResourceNeed,if_pos ((first_kind_iff p).mpr small),asInt_rand p.r_le,
      netMax_finite some_vm]
    simp only [ResourceNeed.Defined,quotient_of_ne divisor.ne']
    exact ⟨_, _, rfl, rfl, add_pos (div_pos positive divisor) sends⟩

theorem weighted_pos {a b : ℚ} {m n : Int} (first : 0 < a) (second : 0 < b) (m_nonneg : 0 ≤ m)
    (n_nonneg : 0 ≤ n) : 0 < a * m + b * n ↔ 0 < m + n := by
  have left : 0 ≤ a * m := mul_nonneg first.le (by exact_mod_cast m_nonneg)
  have right : 0 ≤ b * n := mul_nonneg second.le (by exact_mod_cast n_nonneg)
  constructor
  · intro positive
    by_contra none
    obtain ⟨rfl, rfl⟩ : m = 0 ∧ n = 0 := by omega
    simp at positive
  · intro some_task
    rcases lt_or_eq_of_le m_nonneg with m_pos | rfl
    · exact add_pos_of_pos_of_nonneg (mul_pos first (by exact_mod_cast m_pos)) right
    · exact add_pos_of_nonneg_of_pos left (mul_pos second (by exact_mod_cast (by omega : 0 < n)))

/-- A process of the second kind. -/
theorem createNeed_large {k : Machine} (some_vm : 1 ≤ k.numberOfVMPerHost) (comp : 0 ≤ k.compTaskSize)
    (comm : 0 ≤ k.commTaskSize) {p : TaskParams k} (large : p.randTask = k.randMax) :
    (createNeed k p).Defined ↔ 0 < k.compTaskSize + k.commTaskSize := by
  have positive : (0 : ℚ) < k.randMax := by exact_mod_cast k.some_rand
  have branch : ¬ ((asInt p.randTask : Int) : ℚ) / k.randMax < 1 := fun small =>
    absurd large ((first_kind_iff p).mp small).ne
  have divisor : (0 : ℚ) < ((if asInt p.r ≤ 10 then 10 else asInt p.r : Int) : ℚ) := by
    have : 0 < (if asInt p.r ≤ 10 then 10 else asInt p.r : Int) := by
      split <;> omega
    exact_mod_cast this
  have sends : 0 < 3 / 100 * (maxVmNet / (k.numberOfVMPerHost : ℚ)) / maxVmNet :=
    div_pos (mul_pos (by norm_num) (share_positive some_vm)) (by norm_num [maxVmNet])
  have computes := mul_pos (div_pos positive divisor) (by norm_num : (0 : ℚ) < 10)
  rw [createNeed,computeResourceNeed,if_neg branch,netMax_finite some_vm,← weighted_pos computes sends comp comm]
  generalize (if asInt p.r ≤ 10 then 10 else asInt p.r : Int) = r at divisor computes ⊢
  simp [ResourceNeed.Defined,quotient_of_ne divisor.ne',Extended.toOption]

/-- So small a ratio is lost in the subtraction from one. -/
theorem one_le_single_iff {ρ : ℚ} (nonneg : 0 ≤ ρ) (below : ρ < 1) : 1 ≤ single (1 - ρ) ↔ ρ ≤ 1 / 2 ^ 25 := by
  rcases nonneg.eq_or_lt with rfl | positive
  · exact iff_of_true (by decide +kernel) (by norm_num)
  rcases lt_or_ge (1 - ρ) (2 ^ (-1 : Int)) with small | large
  · have bound : single (1 - ρ) ≤ 2 ^ (-1 : Int) := nearest_le_pow (by decide) (by decide) (by linarith) small.le
    norm_num at small bound ⊢
    exact iff_of_false (by linarith) (by linarith)
  · have log : Int.log 2 |1 - ρ| = -1 := log_eq large (by norm_num; linarith)
    have is : single (1 - ρ) = toEven ((1 - ρ) * 2 ^ 24) / 2 ^ 24 := by
      have place : exponent 24 (-149) (1 - ρ) = -24 := by
        rw [exponent,log]
        decide
      rw [single,nearest,place,zpow_neg,div_inv_eq_mul,← div_eq_mul_inv]
      norm_cast
    rw [is,le_div_iff₀ (by norm_num),one_mul]
    constructor
    · intro up
      by_contra more
      have down : toEven ((1 - ρ) * 2 ^ 24) ≤ 2 ^ 24 - 1 := toEven_le (by norm_num at more ⊢; linarith)
      have : (2 : ℚ) ^ 24 ≤ (2 ^ 24 - 1 : Int) := up.trans (by exact_mod_cast down)
      norm_num at this
    · intro less
      have up : 2 ^ 24 - 1 < toEven ((1 - ρ) * 2 ^ 24) :=
        lt_toEven_of_odd (by decide) (by norm_num at less ⊢; linarith)
      exact_mod_cast (by omega : (2 ^ 24 : Int) ≤ toEven ((1 - ρ) * 2 ^ 24))

theorem two_le_iterationPerProcessFloat {v : Nat} (many : 4 ≤ v) : 2 ≤ iterationPerProcessFloat v := by
  have four : (4 : ℚ) ≤ v := by exact_mod_cast many
  have count : (2 : ℚ) ^ (2 : Int) ≤ single v := pow_le_nearest (by decide) (by decide) (by norm_num; linarith)
  have ratio : (1 / 2 : ℚ) ≤ single (3 / 5) := by decide +kernel
  have product : (2 : ℚ) ^ (1 : Int) ≤ single (single v * single (3 / 5)) := by
    refine pow_le_nearest (by decide) (by decide) ?_
    norm_num at count ⊢
    nlinarith
  exact one_le_toInt (by simpa using product) (by decide)

/-- With one iteration nothing is computed, and a message is sent unless the ratio makes itself felt. -/
theorem some_task_one {ρ : ℚ} (ratio : Ratio ρ) :
    0 < compTaskSizeFloat ρ 1 + commTaskSizeFloat ρ 1 ↔ ρ ≤ 1 / 2 ^ 25 := by
  obtain ⟨rounded, nonneg, below⟩ := ratio
  have one : single ((1 : Int) : ℚ) = 1 := by decide +kernel
  have none : compTaskSizeFloat ρ 1 = 0 := by
    rw [compTaskSizeFloat_eq nonneg (by decide),one,mul_one,rounded]
    exact Int.floor_eq_zero_iff.mpr ⟨nonneg, below⟩
  rw [none,zero_add,commTaskSizeFloat,one,toInt_of_nonneg (single_nonneg (by linarith)),Int.floor_pos]
  exact one_le_single_iff nonneg below

/-- How many VMs it takes for a process to have something to compute or to send. -/
theorem some_task_iff {ρ : ℚ} (ratio : Ratio ρ) (v : Nat) :
    0 < compTaskSizeFloat ρ (iterationPerProcessFloat v) + commTaskSizeFloat ρ (iterationPerProcessFloat v) ↔
      4 ≤ v ∨ (2 ≤ v ∧ ρ ≤ 1 / 2 ^ 25) := by
  rcases Nat.lt_or_ge v 4 with few | many
  · obtain none | one : (v < 2 ∧ iterationPerProcessFloat v = 0) ∨ (2 ≤ v ∧ iterationPerProcessFloat v = 1) := by
      obtain rfl | rfl | rfl | rfl : v = 0 ∨ v = 1 ∨ v = 2 ∨ v = 3 := by omega
      · exact .inl (by decide +kernel)
      · exact .inl (by decide +kernel)
      · exact .inr (by decide +kernel)
      · exact .inr (by decide +kernel)
    · have zero : single ((0 : Int) : ℚ) = 0 := by decide +kernel
      rw [none.2,commTaskSizeFloat_zero ratio,compTaskSizeFloat_eq ratio.nonneg (le_refl 0),zero,mul_zero]
      exact iff_of_false (by decide +kernel) (by omega)
    · rw [one.2,some_task_one ratio]
      exact ⟨fun less => .inr ⟨one.1, less⟩, fun or => (or.resolve_left (by omega)).2⟩
  · have iterations := two_le_iterationPerProcessFloat many
    have comp := compTaskSizeFloat_nonneg ratio.nonneg (k := iterationPerProcessFloat v) (by omega)
    have comm := half_le_commTaskSizeFloat ratio (k := iterationPerProcessFloat v) (by omega)
    exact iff_of_true (by omega) (.inl many)

theorem createNeed_defined_iff {c : Creation} {numberOfInvolvedHost : Nat} {ρ : ℚ}
    (configured : Configured c numberOfInvolvedHost ρ) (p : TaskParams c.machine) :
    (createNeed c.machine p).Defined ↔ TaskDefined c ρ p := by
  have some_vm : 1 ≤ c.machine.numberOfVMPerHost := configured.perHost ▸ configured.some_vm
  have iterations := iterationPerProcessFloat_nonneg c.numberOfVms
  have comp : 0 ≤ c.machine.compTaskSize :=
    configured.compTasks ▸ compTaskSizeFloat_nonneg configured.ratio.nonneg iterations
  have comm : 0 ≤ c.machine.commTaskSize := by
    have half := half_le_commTaskSizeFloat configured.ratio iterations
    rw [configured.commTasks]
    omega
  rcases Nat.lt_or_eq_of_le p.randTask_le with small | large
  · rw [createNeed_small some_vm small]
    exact ⟨fun defined => ⟨fun _ => defined, fun is => absurd is small.ne⟩, fun defined => defined.1 small⟩
  · rw [createNeed_large some_vm comp comm large,configured.compTasks,configured.commTasks,
      some_task_iff configured.ratio]
    exact ⟨fun defined => ⟨fun less => absurd large less.ne, fun _ => defined⟩, fun defined => defined.2 large⟩

theorem workloadAt_sequence (c : Creation) (rand : RandStream c.machine) (i : Nat) :
    (Decimal.atoi (workloadAt c rand i).processSequence).toNat = i := by
  show (Decimal.atoi (Decimal.formatU i)).toNat = i
  rw [Decimal.atoi_formatU,Int.toNat_natCast]

/-- Every process that was created has its random numbers as arguments, and its number. -/
theorem created_process {c : Creation} {rand : RandStream c.machine} {balancer : Balancer} {final : Creating}
    (one : c.numberOfClusters = 1) (ran : createTasks c rand balancer = some final) {p : NewProcess}
    (member : p ∈ final.created) : ∃ i < c.numberOfProcesses,
      (Decimal.atoi p.workload.processSequence).toNat = i ∧
        processNeed c.machine p.workload.argv = createNeed c.machine (c.task rand i) := by
  have inside : p.workload ∈ (List.range c.numberOfProcesses).map (workloadAt c rand) :=
    (createTasks_workloads one ran).workloads ▸ List.mem_map_of_mem member
  obtain ⟨i, bound, is⟩ := List.mem_map.mp inside
  refine ⟨i, List.mem_range.mp bound, ?_, ?_⟩
  · exact is ▸ workloadAt_sequence c rand i
  · rw [← is]
    exact processNeed_print 0 _

theorem created_all {c : Creation} {rand : RandStream c.machine} {balancer : Balancer} {final : Creating}
    (one : c.numberOfClusters = 1) (ran : createTasks c rand balancer = some final) {i : Nat}
    (bound : i < c.numberOfProcesses) :
    ∃ p ∈ final.created, (Decimal.atoi p.workload.processSequence).toNat = i := by
  have inside : workloadAt c rand i ∈ final.created.map NewProcess.workload := by
    rw [(createTasks_workloads one ran).workloads]
    exact List.mem_map_of_mem (List.mem_range.mpr bound)
  obtain ⟨p, member, is⟩ := List.mem_map.mp inside
  exact ⟨p, member, is ▸ workloadAt_sequence c rand i⟩

/-- After any reports the processes among them have stored their expected times, in any order. -/
theorem stored_expected {k : Machine} {expected : Nat → Option ℚ} {reports : List (NewProcess × ℚ)}
    (told : ∀ report ∈ reports, (processNeed k report.1.workload.argv).expectedTime =
      expected (Decimal.atoi report.1.workload.processSequence).toNat) {p : NewProcess}
    (reported : p ∈ reports.map Prod.fst) :
    (reports.foldl (storeSlowDown k) startSlowDown
      (Decimal.atoi p.workload.processSequence).toNat).expectedTime =
      expected (Decimal.atoi p.workload.processSequence).toNat := by
  induction reports using List.reverseRecOn with
  | nil => simp at reported
  | append_singleton past report ih =>
    rw [List.foldl_append,List.foldl_cons,List.foldl_nil,storeSlowDown]
    by_cases same : (Decimal.atoi p.workload.processSequence).toNat =
        (Decimal.atoi report.1.workload.processSequence).toNat
    · rw [same,Function.update_self]
      exact told report (by simp)
    · rw [Function.update_of_ne same]
      refine ih (fun r member => told r (List.mem_append_left _ member)) ?_
      rw [List.map_append,List.mem_append] at reported
      refine reported.resolve_right fun last => same ?_
      rw [List.mem_singleton.mp last]

theorem meanSlowdown_some {n : Nat} {slowDown : Nat → SlowDown} (some_process : 1 ≤ n)
    (all : ∀ i < n, ∃ expected, (slowDown i).expectedTime = some expected ∧ expected ≠ 0) :
    ∃ mean, meanSlowdown n slowDown = some mean := by
  obtain ⟨mean, ran, _⟩ := Runs.run_total (fun (mean : ℚ) i => (slowDown i).slowdown.map (mean + ·))
    (fun _ => True) (fun i => i < n) (fun mean i _ bound => by
      obtain ⟨expected, is, divisor⟩ := all i bound
      exact ⟨_, by rw [SlowDown.slowdown,is,Option.bind_some,quotient_of_ne divisor]; rfl, trivial⟩)
    (s := 0) trivial (List.range n) (fun i member => List.mem_range.mp member)
  have count : (n : ℚ) ≠ 0 := by exact_mod_cast (by omega : n ≠ 0)
  exact ⟨_, by rw [meanSlowdown,ran,Option.bind_some,quotient_of_ne count]⟩

/-- The slowdown is defined exactly where no process of the first kind has drawn a zero for `r`, and those
of the second kind have something to do. -/
theorem slowdown_defined_iff {c : Creation} {numberOfInvolvedHost : Nat} {compPerComm : ℚ}
    (configured : Configured c numberOfInvolvedHost compPerComm) {rand : RandStream c.machine}
    {balancer : Balancer} {final : Creating} (ran : createTasks c rand balancer = some final) :
    SlowdownDefined c rand final.created ↔
      ∀ i < c.numberOfProcesses, TaskDefined c compPerComm (c.task rand i) := by
  have each (i : Nat) := createNeed_defined_iff configured (c.task rand i)
  constructor
  · exact fun defined i bound => (each i).mp (defined.create i bound)
  · intro all
    have create (i : Nat) (bound : i < c.numberOfProcesses) := (each i).mpr (all i bound)
    refine ⟨create, fun p member => ?_, fun reports among complete => ?_⟩
    · obtain ⟨i, bound, _, same⟩ := created_process configured.clusters ran member
      exact same ▸ create i bound
    · refine meanSlowdown_some configured.some_process fun i bound => ?_
      obtain ⟨p, member, number⟩ := created_all configured.clusters ran bound
      obtain ⟨_, expected, _, is, positive⟩ := create i bound
      refine ⟨expected, ?_, positive.ne'⟩
      rw [← is,← number]
      refine @stored_expected _ (fun i => (createNeed c.machine (c.task rand i)).expectedTime) reports
        (fun report inside => ?_) p (complete p member)
      obtain ⟨j, _, rfl, same⟩ := created_process configured.clusters ran (among report inside)
      rw [same]

theorem twoTasks_configured : Configured twoTasks 5 (single (1 / 5)) :=
  ⟨by decide, by decide +kernel, by decide +kernel, ratio_default, by decide, by decide, by decide⟩

/-- `r` is not zero: the draws after the arrival of a task are all 5. -/
theorem slowdown_defined_two : ∃ final,
    createTasks twoTasks (fun d => if d % 7 = 0 then 0 else 5) (fun _ => 2) = some final ∧
      SlowdownDefined twoTasks (fun d => if d % 7 = 0 then 0 else 5) final.created := by
  refine ⟨_, rfl, (@slowdown_defined_iff _ _ _ twoTasks_configured _ (fun _ => 2) _ rfl).mpr fun i _ => ?_⟩
  refine ⟨fun _ => ?_, fun _ => .inl (by decide)⟩
  show ((if (7 * i + 1) % 7 = 0 then 0 else 5 : Fin 2147483648) : Nat) ≠ 0
  rw [if_neg (by omega)]
  decide

/-- With a zero for `r` the expected times are infinite. -/
theorem slowdown_undefined : Configured twoTasks 5 (single (1 / 5)) ∧ ∃ final,
    createTasks twoTasks (fun _ => 0) (fun _ => 2) = some final ∧
      (∀ p ∈ final.created, (processNeed twoTasks.machine p.workload.argv).expectedTime = none) ∧
      ¬ SlowdownDefined twoTasks (fun _ => 0) final.created := by
  obtain ⟨final, ran⟩ : ∃ final, createTasks twoTasks (fun _ => 0) (fun _ => 2) = some final := ⟨_, rfl⟩
  refine ⟨twoTasks_configured, final, ran, fun p member => ?_, fun defined => ?_⟩
  · obtain ⟨i, _, _, same⟩ := created_process rfl ran member
    rw [same]
    exact (createNeed_zero (Nat.zero_lt_succ _) rfl).2
  · have divisor := (createNeed_defined_iff twoTasks_configured _).mp (defined.create 0 (by decide))
    exact divisor.1 (by decide) rfl

end Hpvc.Organizer
