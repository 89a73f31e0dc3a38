import Hpvc.Library.Decimal
import Hpvc.Library.Extended
import Hpvc.OrganizerGuestBalance
import Hpvc.OrganizerPlacement
import Hpvc.TaskAccounting

/-! Accounting of the organizer simulator: random numbers up to `RAND_MAX` are passed
with `%u` and read with `atoi`. With fewer VMs than PMs `net_max` is infinite. -/
namespace Hpvc.Organizer

/-- The constants of a simulation. -/
structure Machine where
  randMax : Nat
  some_rand : 0 < randMax
  int_rand : randMax < 2 ^ 31
  cpuMaxFlops : ℚ
  numberOfVMPerHost : Nat
  compTaskSize : Int
  commTaskSize : Int

/-- `ramsize / 1000` -/
def memoryMax : ℚ := 1000000

/-- `MAX_VM_NET / numberOfVM_perHost` -/
def Machine.netMax (k : Machine) : Extended := .quotient maxVmNet k.numberOfVMPerHost

/-- Times are missing where they are no numbers, as the quotient of a random number zero. -/
structure ResourceNeed where
  cpu : ℚ
  memory : ℚ
  net : Extended
  expectedTime : Option ℚ
  cpuTime : Option ℚ

def quotient (a b : ℚ) : Option ℚ := if b = 0 then none else some (a / b)

def computeResourceNeed (k : Machine) (randTask r m _c : Int) : ResourceNeed :=
  if (randTask : ℚ) / k.randMax < 1 then
    let m := if m ≤ 10 then 10 else m
    let net := k.netMax.scale (4 / 10)
    let cpuTime := quotient k.randMax r
    { cpu := 1 / 10 * k.cpuMaxFlops
      memory := m / k.randMax * memoryMax
      net := net
      cpuTime := cpuTime
      expectedTime := cpuTime.bind fun time => net.toOption.map fun net => time + net / maxVmNet }
  else
    let r := if r ≤ 10 then 10 else r
    let m := if m ≤ 10 then 10 else m
    let net := k.netMax.scale (3 / 100)
    let cpuTime := quotient k.randMax r |>.map (· * 10)
    { cpu := r / k.randMax * k.cpuMaxFlops * 10
      memory := m / k.randMax * memoryMax
      net := net
      cpuTime := cpuTime
      expectedTime := cpuTime.bind fun time => net.toOption.map fun net =>
        time * k.compTaskSize + net / maxVmNet * k.commTaskSize }

/-- The four random numbers of a task. -/
structure TaskParams (k : Machine) where
  r : Nat
  m : Nat
  c : Nat
  randTask : Nat
  r_le : r ≤ k.randMax
  m_le : m ≤ k.randMax
  c_le : c ≤ k.randMax
  randTask_le : randTask ≤ k.randMax

/-- The arguments of `process_task` that its need depends on, and its cluster. -/
structure TaskArgv where
  r : List Char
  m : List Char
  c : List Char
  randTask : List Char
  clusterId : List Char

/-- Conversions between `int` and `unsigned int`. -/
def asUnsigned (z : Int) : Nat := (z % 2 ^ 32).toNat

def asInt (n : Nat) : Int := if n < 2 ^ 31 then n else n - 2 ^ 32

def printArgv {k : Machine} (cluster : Nat) (p : TaskParams k) : TaskArgv where
  r := Decimal.formatU p.r
  m := Decimal.formatU p.m
  c := Decimal.formatU p.c
  randTask := Decimal.formatU p.randTask
  clusterId := Decimal.formatU cluster

/-- The need in `create_tasks`: the numbers are unsigned there. -/
def createNeed (k : Machine) (p : TaskParams k) : ResourceNeed :=
  computeResourceNeed k (asInt p.randTask) (asInt p.r) (asInt p.m) (asInt p.c)

theorem asInt_rand {k : Machine} {n : Nat} (bound : n ≤ k.randMax) : asInt n = n :=
  if_pos (Nat.lt_of_le_of_lt bound k.int_rand)

def readUnsigned (text : List Char) : Nat := asUnsigned (Decimal.atoi text)

/-- The need in `process_task`: texts are read as `int` and stored unsigned. -/
def processNeed (k : Machine) (argv : TaskArgv) : ResourceNeed :=
  computeResourceNeed k (asInt (readUnsigned argv.randTask)) (asInt (readUnsigned argv.r))
    (asInt (readUnsigned argv.m)) (asInt (readUnsigned argv.c))

def accounting (k : Machine) : Accounting.Program (TaskParams k) TaskArgv (ℚ × Extended) where
  print := printArgv
  charge p := ((createNeed k p).memory, (createNeed k p).net)
  discharge argv := ((processNeed k argv).memory, (processNeed k argv).net)
  cluster argv := Decimal.atoi argv.clusterId
  cluster_print _ _ := Decimal.atoi_formatU _

theorem readUnsigned_formatU {n : Nat} (int : n < 2 ^ 31) : readUnsigned (Decimal.formatU n) = n := by
  rw [readUnsigned,Decimal.atoi_formatU,asUnsigned]
  omega

/-- The process computes the need it was created with, in every field. -/
theorem processNeed_print {k : Machine} (cluster : Nat) (p : TaskParams k) :
    processNeed k (printArgv cluster p) = createNeed k p := by
  have int {n : Nat} (bound : n ≤ k.randMax) : n < 2 ^ 31 := Nat.lt_of_le_of_lt bound k.int_rand
  simp only [processNeed,createNeed,printArgv,readUnsigned_formatU (int p.r_le),
    readUnsigned_formatU (int p.m_le),readUnsigned_formatU (int p.c_le),
    readUnsigned_formatU (int p.randTask_le)]

theorem discharge_eq_charge (k : Machine) (t : Accounting.Task (TaskParams k)) :
    (accounting k).discharge ((accounting k).argv t) = (accounting k).charge t.params := by
  simp only [accounting,Accounting.Program.argv,processNeed_print]

/-- What is to hold of every run of creations, charges, migrations and endings in any order: the two
properties of a VM are what was charged to it less what its ended tasks discharged,
each task discharges what it was charged, and a VM whose tasks are all charged and
ended is at zero. -/
def Accounts (k : Machine) : Prop :=
  ∀ (pm : Nat × Nat → Nat) (events : List (Accounting.Event (TaskParams k)))
    (final : Accounting.State (TaskParams k) (ℚ × Extended)),
    Runs.run (Accounting.step (accounting k)) (Accounting.start _ _ pm) events = some final →
    (∀ i, final.amounts (0, i) =
      (accounting k).charged final.tasks (0, i) - (accounting k).discharged final.tasks (0, i)) ∧
    (∀ t ∈ final.tasks, (accounting k).discharge ((accounting k).argv t) = (accounting k).charge t.params) ∧
    ∀ i, (∀ t ∈ final.tasks, t.vm = (0, i) → t.charged = true ∧ t.ended = true) → final.amounts (0, i) = 0

/-- The amounts of a need with a number for its net. -/
def ResourceNeed.numbers (need : ResourceNeed) : Accounting.Amounts := (need.memory, need.net.toOption.getD 0)

/-- The accounting in numbers. -/
def accountingNumbers (k : Machine) : Accounting.Program (TaskParams k) TaskArgv Accounting.Amounts :=
  { accounting k with
    charge := fun p => (createNeed k p).numbers
    discharge := fun argv => (processNeed k argv).numbers }

def embed : Accounting.Amounts → ℚ × Extended := Prod.map id Extended.finite

theorem embed_zero : embed 0 = 0 := rfl
theorem embed_add (a b : Accounting.Amounts) : embed (a + b) = embed a + embed b := rfl
theorem embed_neg (a : Accounting.Amounts) : embed (-a) = -embed a := rfl
theorem embed_sub (a b : Accounting.Amounts) : embed (a - b) = embed a - embed b := by
  rw [sub_eq_add_neg,embed_add,embed_neg]
  exact Prod.ext (sub_eq_add_neg a.1 b.1).symm rfl

/-- Either kind of task needs a part of the most. -/
theorem need_net (k : Machine) (randTask r m c : Int) :
    ∃ part, (computeResourceNeed k randTask r m c).net = k.netMax.scale part := by
  unfold computeResourceNeed
  split
  · exact ⟨_, rfl⟩
  · exact ⟨_, rfl⟩

theorem netMax_finite {k : Machine} (some_vm : 1 ≤ k.numberOfVMPerHost) :
    k.netMax = .finite (maxVmNet / k.numberOfVMPerHost) :=
  Extended.quotient_of_ne _ (by exact_mod_cast (by omega : k.numberOfVMPerHost ≠ 0))

theorem share_positive {k : Machine} (some_vm : 1 ≤ k.numberOfVMPerHost) :
    (0 : ℚ) < maxVmNet / k.numberOfVMPerHost := by
  have count : (0 : ℚ) < k.numberOfVMPerHost := by exact_mod_cast some_vm
  exact div_pos (by norm_num [maxVmNet]) count

theorem need_numbers {k : Machine} (some_vm : 1 ≤ k.numberOfVMPerHost) (randTask r m c : Int) :
    ((computeResourceNeed k randTask r m c).memory, (computeResourceNeed k randTask r m c).net) =
      embed (computeResourceNeed k randTask r m c).numbers := by
  obtain ⟨part, is⟩ := need_net k randTask r m c
  rw [netMax_finite some_vm,Extended.scale_finite] at is
  simp only [embed,ResourceNeed.numbers,is,Extended.toOption,Option.getD_some,Prod.map_apply,id_eq]

/-- With a VM on each PM all amounts are numbers. -/
theorem accounting_map {k : Machine} (some_vm : 1 ≤ k.numberOfVMPerHost) :
    accounting k = (accountingNumbers k).map embed := by
  have charge : (accounting k).charge = embed ∘ (accountingNumbers k).charge :=
    funext fun p => need_numbers some_vm _ _ _ _
  have discharge : (accounting k).discharge = embed ∘ (accountingNumbers k).discharge :=
    funext fun argv => need_numbers some_vm _ _ _ _
  rw [Accounting.Program.map,← charge,← discharge]
  rfl

theorem accounts {k : Machine} (some_vm : 1 ≤ k.numberOfVMPerHost) : Accounts k := by
  intro pm events final ran
  have same : ∀ t ∈ final.tasks,
      (accounting k).discharge ((accounting k).argv t) = (accounting k).charge t.params :=
    fun t _ => discharge_eq_charge k t
  have translated := Accounting.run_map embed_add embed_neg (accountingNumbers k) (Accounting.start _ _ pm) events
  rw [← accounting_map some_vm] at translated
  obtain ⟨numbers, counted, rfl⟩ := Option.map_eq_some_iff.mp (translated.symm.trans ran)
  refine ⟨fun i => ?_, same, fun i settled => ?_⟩
  · rw [accounting_map some_vm,Accounting.charged_map embed_add embed_zero,
      Accounting.discharged_map embed_add embed_zero,← embed_sub]
    exact congrArg embed (Accounting.run_amounts counted i)
  · refine (congrArg embed ((Accounting.run_backed counted).settled fun t member => ?_)).trans embed_zero
    unfold Accounting.Program.entry
    split
    next on =>
      obtain ⟨charged, ended⟩ := settled t member on.1
      have exactly : (accountingNumbers k).discharge ((accountingNumbers k).argv t) =
          (accountingNumbers k).charge t.params := by
        simp only [accountingNumbers,accounting,Accounting.Program.argv,processNeed_print]
      rw [charged,ended,exactly]
      simp
    next => rfl

/-- One task, from its creation to its end: an infinite amount is no longer one when it is taken back. -/
theorem one_task_nan {k : Machine} (no_vm : k.numberOfVMPerHost = 0) (pm : Nat × Nat → Nat) (p : TaskParams k) :
    ∃ final, Runs.run (Accounting.step (accounting k)) (Accounting.start _ _ pm)
        [.create 0 0 p, .charge 0, .finish 0] = some final ∧
      (∀ t ∈ final.tasks, t.charged = true ∧ t.ended = true) ∧ (final.amounts (0, 0)).2 = .nan := by
  have most : k.netMax = .infinite false := by
    rw [Machine.netMax,no_vm]
    exact Extended.quotient_zero (by norm_num [maxVmNet])
  obtain ⟨part, need⟩ := need_net k (asInt p.randTask) (asInt p.r) (asInt p.m) (asInt p.c)
  have net : (createNeed k p).net = .infinite false := by
    rw [createNeed,need,most]
    rfl
  have cluster : Decimal.atoi (Decimal.formatU 0) = 0 := by rw [Decimal.atoi_formatU]; rfl
  refine ⟨_, rfl, fun t member => ?_, ?_⟩
  · obtain rfl := List.mem_singleton.mp member
    exact ⟨rfl, rfl⟩
  · simp [accounting,Accounting.Program.argv,Accounting.start,Ledger.post,printArgv,cluster,net]
    change 0 + Extended.infinite false + -(processNeed k (printArgv 0 p)).net = .nan
    rw [processNeed_print,net]
    rfl

/-- The accounting balances in every run, exactly if there is a VM for each PM. -/
theorem organizer_accounts_iff (k : Machine) : Accounts k ↔ 1 ≤ k.numberOfVMPerHost := by
  refine ⟨fun all => ?_, accounts⟩
  by_contra none
  obtain ⟨final, ran, settled, net⟩ := one_task_nan (k := k) (by omega) (fun _ => 0)
    ⟨0, 0, 0, 0, Nat.zero_le _, Nat.zero_le _, Nat.zero_le _, Nat.zero_le _⟩
  have zero := (all _ _ final ran).2.2 0 fun t member _ => settled t member
  rw [zero] at net
  cases net

/-- A VM and two PMs: its net is invalid when its one task has ended. -/
theorem organizer_accounts_nan :
    let k : Machine := ⟨2147483647, by decide, by decide, 1000000000, 1 / 2, 0, 0⟩
    (launchMaster ⟨["c-0.me", "c-1.me", "c-2.me"]⟩ 1 0).isSome ∧ ¬ Accounts k := by
  intro k
  refine ⟨rfl, fun all => ?_⟩
  obtain ⟨final, ran, settled, net⟩ := one_task_nan (k := k) rfl (fun _ => 0)
    ⟨0, 0, 0, 0, Nat.zero_le _, Nat.zero_le _, Nat.zero_le _, Nat.zero_le _⟩
  have zero := (all _ _ final ran).2.2 0 fun t member _ => settled t member
  rw [zero] at net
  cases net

end Hpvc.Organizer
