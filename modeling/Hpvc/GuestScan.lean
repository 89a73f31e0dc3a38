import Hpvc.OrganizerGuestBalance

/-! The scan over the VMs in `guest_load_balance`, which both simulators have: its loop variable
wraps in the body, and the selection that it starts behind changes while it runs. The marginal
costs, in which the two differ, are arguments here. -/
namespace Hpvc.GuestScan

/-- The loop's variables, and the VMs whose cost was computed. -/
structure Scan (R : Type) where
  i : Nat
  minCost : R
  selectedVmNumber : Nat
  newLoad : Nat
  evaluated : List Nat

section Loop
variable {R : Type} [LT R] [DecidableLT R] (marginalCost : Nat → R) (vmLoad : Nat → Nat)
  (numberOfVm : Nat)

/-- One turn, with the loop's `++i` at its end. -/
def turn (s : Scan R) : Scan R :=
  let i := if numberOfVm ≤ s.i then 0 else s.i
  let evaluated := s.evaluated ++ [i]
  if marginalCost i < s.minCost then
    { i := i + 1, minCost := marginalCost i, selectedVmNumber := i, newLoad := vmLoad i + 1, evaluated }
  else { s with i := i + 1, evaluated }

/-- The turns that `visited_vms` still allows. -/
def turns : Nat → Scan R → Scan R
  | 0, s => s
  | left + 1, s => turns left (turn marginalCost vmLoad numberOfVm s)

/-- The assign branch. Between requests `min_cost` is `DBL_MAX` and `new_load` zero. -/
def assign (dblMax : R) (selectedVmNumber : Nat) : Scan R :=
  turns marginalCost vmLoad numberOfVm numberOfVm ⟨selectedVmNumber + 1, dblMax, selectedVmNumber, 0, []⟩

end Loop

/-- The answers to requests that find these costs and loads. -/
def answers {R : Type} [LT R] [DecidableLT R] (dblMax : R) (numberOfVm : Nat) :
    Nat → List ((Nat → R) × (Nat → Nat)) → List Nat
  | _, [] => []
  | selected, request :: rest =>
    let answer := (assign request.1 request.2 numberOfVm dblMax selected).selectedVmNumber
    answer :: answers dblMax numberOfVm answer rest

/-- `s + 1, s + 2, …, n - 1, 0, …, s` -/
def cyclicFrom (n s : Nat) : List Nat := List.range' (s + 1) (n - 1 - s) ++ List.range (s + 1)

/-- The first VM of the order that costs least. -/
def FirstLeast {R : Type} [LE R] [LT R] (cost : Nat → R) (order : List Nat) (v : Nat) : Prop :=
  ∃ before after, order = before ++ v :: after ∧ (∀ w ∈ before, cost v < cost w) ∧
    ∀ w ∈ after, cost v ≤ cost w

section Order
variable {R : Type} [LT R] [DecidableLT R] (marginalCost : Nat → R) (vmLoad : Nat → Nat)
  {n : Nat}

/-- The loop is a pick along its visits. -/
theorem turns_pick (count : Nat) (s : Scan R) :
    (turns marginalCost vmLoad n count s).evaluated = s.evaluated ++ Organizer.visits n s.i count ∧
      ((turns marginalCost vmLoad n count s).minCost, (turns marginalCost vmLoad n count s).selectedVmNumber,
        (turns marginalCost vmLoad n count s).newLoad) =
      Pick.pick Pick.less (fun _ => true) marginalCost (fun v => (v, vmLoad v + 1))
        (Organizer.visits n s.i count) (s.minCost, s.selectedVmNumber, s.newLoad) := by
  induction count generalizing s with
  | zero => simp [turns,Organizer.visits,Pick.pick]
  | succ count ih =>
    obtain ⟨evaluated, picked⟩ := ih (turn marginalCost vmLoad n s)
    rw [turns,evaluated,picked]
    simp only [Organizer.visits,Pick.pick,Pick.less,turn]
    generalize (if n ≤ s.i then 0 else s.i) = i
    by_cases cheaper : marginalCost i < s.minCost <;> simp [cheaper]

end Order

theorem visits_cyclic {n s : Nat} (inside : s < n) : Organizer.visits n (s + 1) n = cyclicFrom n s := by
  rw [Organizer.visits_eq inside (Nat.zero_lt_of_lt inside)]
  have split : List.range n = List.range (n - 1 - s) ++ List.range' (n - 1 - s) (s + 1) := by
    rw [List.range_eq_range',List.range_eq_range']
    have parts := @List.range'_append_1 0 (n - 1 - s) (s + 1)
    rw [Nat.zero_add] at parts
    rw [parts]
    congr 1
    omega
  rw [split,List.map_append,cyclicFrom]
  congr 1
  · rw [List.range'_eq_map_range]
    apply List.map_congr_left
    intro k member
    have below := List.mem_range.mp member
    exact Nat.mod_eq_of_lt (by omega)
  · rw [List.range'_eq_map_range,List.map_map]
    conv => rhs; rw [← List.map_id (List.range (s + 1))]
    apply List.map_congr_left
    intro k member
    have below := List.mem_range.mp member
    rw [Function.comp_apply,show s + 1 + (n - 1 - s + k) = n + k by omega,Nat.add_mod_left,
      Nat.mod_eq_of_lt (by omega)]
    rfl

theorem mem_cyclicFrom {n s v : Nat} (inside : s < n) : v ∈ cyclicFrom n s ↔ v < n := by
  rw [← visits_cyclic inside]
  exact Organizer.mem_visits inside (Nat.zero_lt_of_lt inside)

theorem cyclicFrom_perm {n s : Nat} (inside : s < n) : (cyclicFrom n s).Perm (List.range n) := by
  have parts := @List.range'_append_1 0 (s + 1) (n - 1 - s)
  rw [Nat.zero_add,show s + 1 + (n - 1 - s) = n by omega] at parts
  rw [List.range_eq_range',← parts,cyclicFrom,List.range_eq_range']
  exact List.perm_append_comm

/-- The costs of simgrid-project, where a VM has more than one core. -/
def projectMarginalCost {R : Type} [Add R] [Sub R] [Div R] [IntCast R] (math : Organizer.CMath R)
    (numberOfVm vmLoad ncpus maxGuestJob : Nat) (used request : Organizer.Usage R) : R :=
  let base := ((numberOfVm : Int) : R)
  let estimate := ((ncpus * maxGuestJob : Nat) : Int)
  math.pow base (((vmLoad + 1 : Nat) : Int) / (estimate : R)) +
    math.pow base ((used.memory + request.memory) / Organizer.maxVmMemory) +
    math.pow base ((used.net + request.net) / Organizer.maxVmNet) -
    math.pow base (((vmLoad : Nat) : Int) / (estimate : R)) -
    math.pow base (used.memory / Organizer.maxVmMemory) -
    math.pow base (used.net / Organizer.maxVmNet)

/-- The assign branch of simgrid-project. -/
def projectAssign {R : Type} [Add R] [Sub R] [Div R] [IntCast R] [LT R] [DecidableLT R]
    (math : Organizer.CMath R) (numberOfVm : Nat) (vmLoad ncpus : Nat → Nat) (maxGuestJob : Nat)
    (used : Nat → Organizer.Usage R) (request : Organizer.Usage R) (selectedVmNumber : Nat) : Scan R :=
  assign (fun v => projectMarginalCost math numberOfVm (vmLoad v) (ncpus v) maxGuestJob (used v) request)
    vmLoad numberOfVm math.dblMax selectedVmNumber

section Answers
variable {R : Type} [LinearOrder R] {dblMax : R} {n s : Nat} {marginalCost : Nat → R}

/-- The scan ends on the first VM of least cost. -/
theorem assign_first (inside : s < n) (vmLoad : Nat → Nat) (finite : ∀ v < n, marginalCost v < dblMax) :
    FirstLeast marginalCost (cyclicFrom n s)
      (assign marginalCost vmLoad n dblMax s).selectedVmNumber := by
  have picked := (turns_pick marginalCost vmLoad (n := n) n ⟨s + 1, dblMax, s, 0, []⟩).2
  rw [visits_cyclic inside] at picked
  rcases Pick.pick_winner (fun _ : Nat => true) marginalCost (fun v => (v, vmLoad v + 1)) Pick.less_trans
    Pick.less_weak (cyclicFrom n s) (dblMax, s, 0) with ⟨_, dear⟩ | ⟨v, found, won, _⟩
  · have own := dear s ((mem_cyclicFrom inside).mpr inside) rfl
    simp only [Pick.less,decide_eq_false_iff_not] at own
    exact absurd (finite s inside) own
  · have selected : (assign marginalCost vmLoad n dblMax s).selectedVmNumber = v :=
      congrArg (·.2.1) (picked.trans found)
    obtain ⟨before, after, order, dearer, least⟩ := won.first
    rw [selected]
    refine ⟨before, after, order, fun w member => ?_, fun w member => ?_⟩
    · simpa [Pick.less] using dearer w member rfl
    · simpa [Pick.less] using least w member rfl

theorem FirstLeast.le {order : List Nat} {v w : Nat} (first : FirstLeast marginalCost order v)
    (member : w ∈ order) : marginalCost v ≤ marginalCost w := by
  obtain ⟨before, after, rfl, dearer, least⟩ := first
  rcases List.mem_append.mp member with early | late
  · exact (dearer w early).le
  · rcases List.mem_cons.mp late with rfl | late
    · exact le_rfl
    · exact least w late

/-- Where all costs are equal the first VM of the order is taken. -/
theorem FirstLeast.head {first v : Nat} {rest : List Nat} (least : FirstLeast marginalCost (first :: rest) v)
    (equal : ∀ w ∈ first :: rest, marginalCost w = marginalCost first) : v = first := by
  obtain ⟨before, after, order, dearer, _⟩ := least
  cases before with
  | nil => exact (List.cons.inj order).1.symm
  | cons w before =>
    obtain ⟨rfl, rest_eq⟩ := List.cons.inj order
    have same := equal v (by simp [rest_eq])
    have below := dearer first List.mem_cons_self
    rw [same] at below
    exact absurd below (lt_irrefl _)

theorem cyclicFrom_head (inside : s < n) : ∃ rest, cyclicFrom n s = (s + 1) % n :: rest := by
  rw [← visits_cyclic inside,Organizer.visits_eq inside (Nat.zero_lt_of_lt inside)]
  obtain ⟨m, rfl⟩ := Nat.exists_eq_succ_of_ne_zero (Nat.ne_zero_of_lt inside)
  exact ⟨_, by rw [List.range_succ_eq_map]; rfl⟩

/-- One request that finds equal costs goes to the next VM. -/
theorem assign_next (inside : s < n) (vmLoad : Nat → Nat) (finite : ∀ v < n, marginalCost v < dblMax)
    (equal : ∀ v < n, ∀ w < n, marginalCost v = marginalCost w) :
    (assign marginalCost vmLoad n dblMax s).selectedVmNumber = (s + 1) % n := by
  have first := assign_first inside vmLoad finite
  obtain ⟨rest, order⟩ := cyclicFrom_head inside
  have positive := Nat.zero_lt_of_lt inside
  rw [order] at first
  refine first.head fun w member => equal w ?_ _ (Nat.mod_lt _ positive)
  exact (mem_cyclicFrom inside).mp (order ▸ member)

theorem answers_rotate (inside : s < n) {requests : List ((Nat → R) × (Nat → Nat))}
    (finite : ∀ request ∈ requests, ∀ v < n, request.1 v < dblMax)
    (equal : ∀ request ∈ requests, ∀ v < n, ∀ w < n, request.1 v = request.1 w) :
    answers dblMax n s requests = (List.range requests.length).map fun k => (s + 1 + k) % n := by
  induction requests generalizing s with
  | nil => rfl
  | cons request rest ih =>
    obtain ⟨finite_first, finite_rest⟩ := List.forall_mem_cons.mp finite
    obtain ⟨equal_first, equal_rest⟩ := List.forall_mem_cons.mp equal
    have next := assign_next inside request.2 finite_first equal_first
    have positive := Nat.zero_lt_of_lt inside
    rw [answers,next,ih (Nat.mod_lt _ positive) finite_rest equal_rest,List.length_cons,List.range_succ_eq_map,
      List.map_cons,List.map_map]
    congr 1
    apply List.map_congr_left
    intro k _
    rw [Function.comp_apply,Nat.add_assoc,Nat.mod_add_mod,Nat.succ_eq_add_one,Nat.add_comm 1 k]

/-- The assign branch computes the cost of every VM once, in the cyclic order behind the last answer,
answers with the first VM that costs least, and selects it; so answers rotate while costs are equal. -/
theorem guest_scan_argmin (inside : s < n) (vmLoad : Nat → Nat) (finite : ∀ v < n, marginalCost v < dblMax) :
    ((assign marginalCost vmLoad n dblMax s).evaluated = cyclicFrom n s ∧
      (cyclicFrom n s).Perm (List.range n)) ∧
    (FirstLeast marginalCost (cyclicFrom n s) (assign marginalCost vmLoad n dblMax s).selectedVmNumber ∧
      ∀ w < n, marginalCost (assign marginalCost vmLoad n dblMax s).selectedVmNumber ≤ marginalCost w) ∧
    ∀ requests : List ((Nat → R) × (Nat → Nat)),
      (∀ request ∈ requests, ∀ v < n, request.1 v < dblMax) →
      (∀ request ∈ requests, ∀ v < n, ∀ w < n, request.1 v = request.1 w) →
      answers dblMax n s requests = (List.range requests.length).map fun k => (s + 1 + k) % n := by
  have first := assign_first inside vmLoad finite
  refine ⟨⟨?_, cyclicFrom_perm inside⟩, ⟨first, fun w below => ?_⟩, fun _ => answers_rotate inside⟩
  · rw [assign,(turns_pick ..).1,visits_cyclic inside]
    rfl
  · exact first.le ((mem_cyclicFrom inside).mpr below)

/-- Of four VMs, VM 3 was selected last; VMs 1 and 2 cost least. -/
theorem guest_scan_tie :
    let cost (v : Nat) : ℚ := if v = 1 ∨ v = 2 then 2 else 5
    ((assign cost (fun _ => 1) 4 100 3).evaluated = cyclicFrom 4 3 ∧ (cyclicFrom 4 3).Perm (List.range 4)) ∧
    (FirstLeast cost (cyclicFrom 4 3) (assign cost (fun _ => 1) 4 100 3).selectedVmNumber ∧
      ∀ w < 4, cost (assign cost (fun _ => 1) 4 100 3).selectedVmNumber ≤ cost w) ∧
    ∀ requests : List ((Nat → ℚ) × (Nat → Nat)),
      (∀ request ∈ requests, ∀ v < 4, request.1 v < 100) →
      (∀ request ∈ requests, ∀ v < 4, ∀ w < 4, request.1 v = request.1 w) →
      answers 100 4 3 requests = (List.range requests.length).map fun k => (3 + 1 + k) % 4 :=
  guest_scan_argmin (by decide) (fun _ => 1) (by decide +kernel)

example : (assign (fun v => if v = 1 ∨ v = 2 then (2 : ℚ) else 5) (fun _ => 1) 4 100 3).selectedVmNumber = 1 := by
  decide +kernel

end Answers

/-- `guest_load_balance` of the organizer does this scan, with its own costs. -/
theorem organizer_scan {R : Type} [Add R] [Sub R] [Div R] [IntCast R] [LT R] [DecidableLT R]
    (math : Organizer.CMath R) (n : Nat) (s : Organizer.Balance) (used : Nat → Organizer.Usage R)
    (request : Organizer.Usage R) :
    Organizer.selectVm math n s used request =
      let final := assign (fun v => Organizer.marginalCost math n (s.vmLoad v) s.maxGuestJob (used v) request)
        s.vmLoad n math.dblMax s.selectedVmNumber
      (final.minCost, final.selectedVmNumber, final.newLoad) :=
  (turns_pick _ s.vmLoad n ⟨s.selectedVmNumber + 1, math.dblMax, s.selectedVmNumber, 0, []⟩).2.symm

/-- So the organizer answers with the first VM of least cost, -/
theorem organizer_first {R : Type} [Field R] [LinearOrder R] (math : Organizer.CMath R) {n : Nat}
    (s : Organizer.Balance) (inside : s.selectedVmNumber < n) (used : Nat → Organizer.Usage R)
    (request : Organizer.Usage R)
    (finite : ∀ v < n, Organizer.marginalCost math n (s.vmLoad v) s.maxGuestJob (used v) request < math.dblMax) :
    FirstLeast (fun v => Organizer.marginalCost math n (s.vmLoad v) s.maxGuestJob (used v) request)
      (cyclicFrom n s.selectedVmNumber) (Organizer.selectVm math n s used request).2.1 := by
  rw [organizer_scan]
  exact assign_first inside s.vmLoad finite

/-- and so does simgrid-project. -/
theorem project_first {R : Type} [Field R] [LinearOrder R] (math : Organizer.CMath R) {n s : Nat}
    (inside : s < n) (vmLoad ncpus : Nat → Nat) (maxGuestJob : Nat) (used : Nat → Organizer.Usage R)
    (request : Organizer.Usage R)
    (finite : ∀ v < n, projectMarginalCost math n (vmLoad v) (ncpus v) maxGuestJob (used v) request < math.dblMax) :
    FirstLeast (fun v => projectMarginalCost math n (vmLoad v) (ncpus v) maxGuestJob (used v) request)
      (cyclicFrom n s) (projectAssign math n vmLoad ncpus maxGuestJob used request s).selectedVmNumber :=
  assign_first inside vmLoad finite

end Hpvc.GuestScan
