import Hpvc.Library.Pick
import Hpvc.Library.Runs
import Mathlib.Algebra.Order.Field.Rat
import Mathlib.Algebra.Order.Floor.Defs
import Mathlib.Data.Rat.Floor
import Mathlib.Logic.Function.Basic

/-! `guest_load_balance`: each new task goes to the VM with the least marginal cost, in
which the load of a VM is measured against an estimate of the largest load. The
estimate `max_guest_job` is doubled when the chosen VM reaches it. -/
namespace Hpvc.Organizer

/-- The library's `pow` and the largest `double`. -/
structure CMath (R : Type) where
  pow : R → R → R
  dblMax : R

section Arithmetic
variable {R : Type} [Add R] [Sub R] [Div R] [IntCast R] [LT R] [DecidableLT R]

def maxVmMemory : R := ((1000000000 : Int) : R)

def maxVmNet : R := ((125000000 : Int) : R)

/-- The properties "mem" and "net" of a VM, or the amounts of a request. -/
structure Usage (R : Type) where
  memory : R
  net : R

def marginalCost (math : CMath R) (numberOfVm vmLoad maxGuestJob : Nat) (used request : Usage R) : R :=
  let base := ((numberOfVm : Int) : R)
  let estimate := ((maxGuestJob : Int) : R)
  math.pow base (((vmLoad + 1 : Nat) : Int) / estimate) +
    math.pow base ((used.memory + request.memory) / maxVmMemory) +
    math.pow base ((used.net + request.net) / maxVmNet) -
    math.pow base (((vmLoad : Nat) : Int) / estimate) -
    math.pow base (used.memory / maxVmMemory) -
    math.pow base (used.net / maxVmNet)

/-- `tasks` counts the tasks on each VM that were created and have not ended; `pending` is
the answer that `create_tasks` has not yet acted on. -/
structure Balance where
  tasks : Nat → Nat
  selectedVmNumber : Nat
  maxGuestJob : Nat
  pending : Option Nat

/-- The size of a VM's process list: its listener and its tasks. -/
def Balance.vmLoad (s : Balance) (v : Nat) : Nat := 1 + s.tasks v

def startBalance : Balance := ⟨fun _ => 0, 0, 1, none⟩

/-- The VMs in the order of the scan: `count` of them from `i` on, in a circle. -/
def visits (numberOfVm : Nat) : Nat → Nat → List Nat
  | _, 0 => []
  | i, count + 1 =>
    let i := if numberOfVm ≤ i then 0 else i
    i :: visits numberOfVm (i + 1) count

/-- The scan starts at `DBL_MAX` with the old selection and a new load of zero. -/
def selectVm (math : CMath R) (numberOfVm : Nat) (s : Balance) (used : Nat → Usage R)
    (request : Usage R) : R × Nat × Nat :=
  Pick.pick Pick.less (fun _ => true)
    (fun v => marginalCost math numberOfVm (s.vmLoad v) s.maxGuestJob (used v) request)
    (fun v => (v, s.vmLoad v + 1)) (visits numberOfVm (s.selectedVmNumber + 1) numberOfVm)
    (math.dblMax, s.selectedVmNumber, 0)

/-- The answer to a request; the estimate must stay an `int`. -/
def balance (math : CMath R) (numberOfVm : Nat) (s : Balance) (used : Nat → Usage R)
    (request : Usage R) : Option Balance :=
  let (_, selected, newLoad) := selectVm math numberOfVm s used request
  let answered := { s with selectedVmNumber := selected, pending := some selected }
  if s.maxGuestJob ≤ newLoad then
    if 2 ^ 31 ≤ s.maxGuestJob * 2 then none
    else some { answered with maxGuestJob := s.maxGuestJob * 2 }
  else some answered

/-- `create_tasks` asks and creates in turn; a task can end at any moment. A request comes
with what is in use on each VM then. -/
inductive BalanceEvent (R : Type) where
  | request (used : Nat → Usage R) (amounts : Usage R)
  | create
  | finish (v : Nat)

def balanceStep (math : CMath R) (numberOfVm : Nat) (s : Balance) : BalanceEvent R → Option Balance
  | .request used amounts =>
    match s.pending with
    | some _ => none
    | none => balance math numberOfVm s used amounts
  | .create => s.pending.map fun v =>
      { s with tasks := Function.update s.tasks v (s.tasks v + 1), pending := none }
  | .finish v =>
    if s.tasks v = 0 then none
    else some { s with tasks := Function.update s.tasks v (s.tasks v - 1) }

/-- At least one VM costs less than `DBL_MAX`. -/
def Affordable (math : CMath R) (numberOfVm : Nat) (s : Balance) : BalanceEvent R → Prop
  | .request used amounts => ∃ v < numberOfVm,
      marginalCost math numberOfVm (s.vmLoad v) s.maxGuestJob (used v) amounts < math.dblMax
  | _ => True

/-- The scan visits the VMs from `i` on, modulo their number. -/
theorem visits_eq {n i : Nat} (start : i ≤ n) (positive : 0 < n) (count : Nat) :
    visits n i count = (List.range count).map fun k => (i + k) % n := by
  induction count generalizing i with
  | zero => rfl
  | succ count ih =>
    have here : (if n ≤ i then 0 else i) = i % n := by
      split
      next last => rw [Nat.le_antisymm start last,Nat.mod_self]
      next inside => rw [Nat.mod_eq_of_lt (by omega)]
    have next : i % n + 1 ≤ n := Nat.mod_lt i positive
    simp only [visits,here,ih next,List.range_succ_eq_map,List.map_cons,List.map_map,Nat.add_zero]
    congr 1
    apply List.map_congr_left
    intro k _
    simp only [Function.comp_apply,Nat.succ_eq_add_one]
    rw [Nat.add_assoc,Nat.mod_add_mod,Nat.add_comm 1 k]

theorem mem_visits {n i v : Nat} (start : i ≤ n) (positive : 0 < n) : v ∈ visits n i n ↔ v < n := by
  rw [visits_eq start positive]
  constructor
  · intro member
    obtain ⟨k, _, rfl⟩ := List.mem_map.mp member
    exact Nat.mod_lt _ positive
  · intro bound
    rcases Nat.lt_or_ge v i with below | above
    · refine List.mem_map.mpr ⟨v + n - i, List.mem_range.mpr (by omega), ?_⟩
      rw [show i + (v + n - i) = v + n by omega,Nat.add_mod_right,Nat.mod_eq_of_lt bound]
    · refine List.mem_map.mpr ⟨v - i, List.mem_range.mpr (by omega), ?_⟩
      rw [Nat.add_sub_of_le above,Nat.mod_eq_of_lt bound]

theorem request_step {math : CMath R} {n : Nat} {s next : Balance} {used : Nat → Usage R}
    {amounts : Usage R} (taken : balanceStep math n s (.request used amounts) = some next) :
    s.pending = none ∧ balance math n s used amounts = some next := by
  simp only [balanceStep] at taken
  split at taken
  · contradiction
  next idle => exact ⟨idle, taken⟩

theorem finish_step {math : CMath R} {n v : Nat} {s next : Balance}
    (taken : balanceStep math n s (.finish v) = some next) :
    next = { s with tasks := Function.update s.tasks v (s.tasks v - 1) } := by
  simp only [balanceStep] at taken
  split at taken
  · contradiction
  · exact (Option.some.inj taken).symm

/-- A VM's process list with the task it was chosen for, if that is still to be created. -/
def Balance.placed (s : Balance) (v : Nat) : Nat := s.vmLoad v + if s.pending = some v then 1 else 0

/-- What an affordable request does: a VM is chosen, and the estimate is doubled if the
VM's new load reaches it. -/
theorem balance_cases {math : CMath R} {n : Nat} {s next : Balance} {used : Nat → Usage R}
    {amounts : Usage R} (positive : 0 < n) (selected : s.selectedVmNumber < n)
    (affordable : Affordable math n s (.request used amounts))
    (taken : balance math n s used amounts = some next) :
    ∃ v < n, next.tasks = s.tasks ∧ next.selectedVmNumber = v ∧ next.pending = some v ∧
      ((s.maxGuestJob ≤ s.vmLoad v + 1 ∧ next.maxGuestJob = s.maxGuestJob * 2) ∨
        (s.vmLoad v + 1 < s.maxGuestJob ∧ next.maxGuestJob = s.maxGuestJob)) := by
  obtain ⟨cheap, bound, cost⟩ := affordable
  have start : s.selectedVmNumber + 1 ≤ n := selected
  obtain ⟨v, visited, _, chosen⟩ := Pick.pick_replaced Pick.less (fun _ : Nat => true)
    (fun v => marginalCost math n (s.vmLoad v) s.maxGuestJob (used v) amounts)
    (fun v => (v, s.vmLoad v + 1)) (visits n (s.selectedVmNumber + 1) n)
    (math.dblMax, s.selectedVmNumber, 0) ((mem_visits start positive).mpr bound) rfl
    (by simpa [Pick.less] using cost)
  refine ⟨v, (mem_visits start positive).mp visited, ?_⟩
  simp only [balance,selectVm,chosen] at taken
  split at taken
  next reached =>
    split at taken
    · contradiction
    · cases taken
      exact ⟨rfl, rfl, rfl, .inl ⟨reached, rfl⟩⟩
  next short =>
    cases taken
    exact ⟨rfl, rfl, rfl, .inr ⟨by omega, rfl⟩⟩

/-- No VM has more processes than the estimate, also with the task on its way to it. -/
structure Estimated (n : Nat) (s : Balance) : Prop where
  selected : s.selectedVmNumber < n
  placed : ∀ v < n, s.placed v ≤ s.maxGuestJob
  power : ∃ k, s.maxGuestJob = 2 ^ k

theorem start_estimated {n : Nat} (positive : 0 < n) : Estimated n startBalance where
  selected := positive
  placed v _ := by simp [Balance.placed,Balance.vmLoad,startBalance]
  power := ⟨0, rfl⟩

theorem step_estimated {math : CMath R} {n : Nat} (positive : 0 < n) {s next : Balance}
    {event : BalanceEvent R} (good : Estimated n s) (affordable : Affordable math n s event)
    (taken : balanceStep math n s event = some next) : Estimated n next := by
  cases event with
  | request used amounts =>
    obtain ⟨v, bound, tasks, selected, pending, estimate⟩ :=
      balance_cases positive good.selected affordable (request_step taken).2
    obtain ⟨k, power⟩ := good.power
    have loads (w : Nat) (hw : w < n) : s.vmLoad w ≤ s.maxGuestJob := by
      have := good.placed w hw
      simp only [Balance.placed] at this
      omega
    have one := loads v bound
    refine ⟨selected ▸ bound, fun w hw => ?_, ?_⟩
    · have := loads w hw
      have same : next.vmLoad w = s.vmLoad w := by simp only [Balance.vmLoad,tasks]
      have some_load : 1 ≤ s.vmLoad v := by simp [Balance.vmLoad]
      simp only [Balance.placed,same,pending,Option.some.injEq]
      split
      next is => subst is; omega
      next => omega
    · rcases estimate with ⟨_, doubled⟩ | ⟨_, kept⟩
      · exact ⟨k + 1, by rw [doubled,power,Nat.pow_succ]⟩
      · exact ⟨k, kept.trans power⟩
  | create =>
    obtain ⟨v, pending, rfl⟩ := Option.map_eq_some_iff.mp taken
    refine ⟨good.selected, fun w hw => ?_, good.power⟩
    have := good.placed w hw
    by_cases same : w = v
    · subst same
      simp only [Balance.placed,Balance.vmLoad,pending,if_true,Function.update_self] at this ⊢
      simp
      omega
    · simp only [Balance.placed,Balance.vmLoad,Function.update_of_ne same] at this ⊢
      simp
      omega
  | finish v =>
    cases finish_step taken
    refine ⟨good.selected, fun w hw => ?_, good.power⟩
    have := good.placed w hw
    by_cases same : w = v
    · subst same
      simp only [Balance.placed,Balance.vmLoad,Function.update_self] at this ⊢
      omega
    · simpa only [Balance.placed,Balance.vmLoad,Function.update_of_ne same] using this

/-- The estimate is one, or at most twice what some VM's process list has come to in the
run, the task just placed included. -/
def WithinTwicePeak (math : CMath R) (n : Nat) (events : List (BalanceEvent R)) (estimate : Nat) : Prop :=
  estimate ≤ 1 ∨ ∃ past rest mid v, events = past ++ rest ∧
    Runs.run (balanceStep math n) startBalance past = some mid ∧ v < n ∧ estimate ≤ 2 * mid.placed v

theorem run_estimated {math : CMath R} {n : Nat} (positive : 0 < n) {events : List (BalanceEvent R)}
    {final : Balance} (h : Runs.run (balanceStep math n) startBalance events = some final)
    (affordable : Runs.Each (balanceStep math n) startBalance events (Affordable math n)) :
    Estimated n final ∧ WithinTwicePeak math n events final.maxGuestJob := by
  refine Runs.run_history (fun past mid =>
    Runs.Each (balanceStep math n) startBalance past (Affordable math n) →
      Estimated n mid ∧ WithinTwicePeak math n past mid.maxGuestJob)
    (fun _ => ⟨start_estimated positive, .inl (Nat.le_refl 1)⟩)
    (fun past mid event next before ih taken all => ?_) h affordable
  obtain ⟨old, new⟩ := Runs.each_snoc.mp all
  obtain ⟨good, peak⟩ := ih old
  have here := new mid before
  refine ⟨step_estimated positive good here taken, ?_⟩
  have earlier (same : next.maxGuestJob = mid.maxGuestJob) :
      WithinTwicePeak math n (past ++ [event]) next.maxGuestJob := by
    rw [same]
    rcases peak with one | ⟨first, rest, at_peak, v, split, reached, bound, twice⟩
    · exact .inl one
    · exact .inr ⟨first, rest ++ [event], at_peak, v, by simp [split], reached, bound, twice⟩
  cases event with
  | request used amounts =>
    obtain ⟨v, bound, tasks, _, pending, ⟨reached, doubled⟩ | ⟨_, kept⟩⟩ :=
      balance_cases positive good.selected here (request_step taken).2
    · -- The VM it was doubled for now has at least half of it.
      refine .inr ⟨past ++ [.request used amounts], [], next, v, by simp, ?_, bound, ?_⟩
      · rw [Runs.run_snoc,before]
        exact taken
      · have same : next.vmLoad v = mid.vmLoad v := by simp only [Balance.vmLoad,tasks]
        simp only [Balance.placed,pending,same,if_true,doubled]
        omega
    · exact earlier kept
  | create =>
    obtain ⟨v, _, rfl⟩ := Option.map_eq_some_iff.mp taken
    exact earlier rfl
  | finish v =>
    cases finish_step taken
    exact earlier rfl

end Arithmetic

/-- In every run in which each request finds a VM that costs less than `DBL_MAX`: no
process list is longer than the estimate, the estimate is a power of two, and it is at
most twice the longest list so far. -/
theorem guest_estimate {R : Type} [Add R] [Sub R] [Div R] [IntCast R] [LT R] [DecidableLT R]
    (math : CMath R) (n : Nat) (positive : 1 ≤ n) (events : List (BalanceEvent R)) (final : Balance)
    (h : Runs.run (balanceStep math n) startBalance events = some final)
    (affordable : Runs.Each (balanceStep math n) startBalance events (Affordable math n)) :
    (∀ v < n, final.vmLoad v ≤ final.maxGuestJob ∧ (final.vmLoad v : ℚ) / final.maxGuestJob ≤ 1) ∧
    (∃ k, final.maxGuestJob = 2 ^ k) ∧ WithinTwicePeak math n events final.maxGuestJob := by
  obtain ⟨good, peak⟩ := run_estimated positive h affordable
  refine ⟨fun v hv => ?_, good.power, peak⟩
  have load : final.vmLoad v ≤ final.maxGuestJob := by
    have := good.placed v hv
    simp only [Balance.placed] at this
    omega
  exact ⟨load, div_le_one_of_le₀ (by exact_mod_cast load) (Nat.cast_nonneg _)⟩

/-- `pow` at integer exponents, and the largest `double`. -/
def exactMath : CMath ℚ := ⟨fun b e => b ^ ⌊e⌋, (2 ^ 53 - 1) * 2 ^ 971⟩

/-- On two idle VMs, a task that needs 2000 times the memory of a VM costs more than
`DBL_MAX` on both; VM 0 gets it without any change of the estimate. -/
theorem guest_estimate_exceeded :
    (Runs.run (balanceStep exactMath 2) startBalance
      [.request (fun _ => ⟨0, 0⟩) ⟨2000 * 1000000000, 0⟩, .create]).map
        (fun s => (s.vmLoad 0, s.maxGuestJob)) = some (2, 1) := by
  decide +kernel

theorem guest_estimate_small : ∃ final,
    Runs.run (balanceStep exactMath 2) startBalance
      [.request (fun _ => ⟨0, 0⟩) ⟨1000000000, 1000000000⟩, .create] = some final ∧
    ∀ v < 2, final.vmLoad v ≤ final.maxGuestJob := by
  have runs : (Runs.run (balanceStep exactMath 2) startBalance
      [.request (fun _ => ⟨0, 0⟩) ⟨1000000000, 1000000000⟩, .create]).isSome = true := by decide +kernel
  obtain ⟨final, h⟩ := Option.isSome_iff_exists.mp runs
  have affordable : Runs.Each (balanceStep exactMath 2) startBalance
      [.request (fun _ => ⟨0, 0⟩) ⟨1000000000, 1000000000⟩, .create] (Affordable exactMath 2) := by
    refine Runs.each_cons.mpr ⟨⟨0, by decide, by decide +kernel⟩, fun next _ => ?_⟩
    exact Runs.each_cons.mpr ⟨trivial, fun _ _ => Runs.each_nil _ _ _⟩
  exact ⟨final, h, fun v hv => ((guest_estimate exactMath 2 (by decide) _ final h affordable).1 v hv).1⟩

end Hpvc.Organizer
