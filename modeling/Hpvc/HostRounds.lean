import Hpvc.HostLaunch
import Hpvc.HostOccupancy
import Hpvc.HostPolicy

/-! The host load balancer over its wakeups: the order in which one visits the hosts, and what the lists of
the hosts, which `place_vm` does not keep right, can come to hold. -/
namespace Hpvc.HostBalancer

open Organizer (CMath)
open Bytes (mix)

/-- The turns of `for (m = host + x, z = host; z < M; ++m, ++z)` that are left, from host `m` on. -/
def scanFrom (c : Cluster) : Nat → Nat → List Nat
  | 0, _ => []
  | left + 1, m =>
    let m := if m = c.firstHost + c.numberOfInvolvedHost then c.firstHost else m
    m :: scanFrom c left (m + 1)

def scanOrder (c : Cluster) (x : Nat) : List Nat := scanFrom c c.numberOfInvolvedHost (c.firstHost + x)

/-- What the turn of a host finds: the usages, and what freed memory would be read as. -/
structure Turn (R : Type) where
  vms : Nat → VmUsage R
  cores : Nat → Nat
  stale : Int

/-- A wakeup: the random start, and the turn of each host. -/
structure Wakeup (R : Type) where
  x : Nat
  turn : Nat → Turn R

/-- The entries that are looked up in `vm_list` in the turn of host `m`: its own, and those of all
other hosts if it has any. -/
def InVmList (c : Cluster) (s : State) (m : Nat) : Prop :=
  ∀ k ∈ List.range' c.firstHost c.numberOfInvolvedHost, k = m ∨ (s.hostVmInfo m).live ≠ [] →
    ∀ v ∈ (s.hostVmInfo k).live, v < c.vms

instance (c : Cluster) (s : State) (m : Nat) : Decidable (InVmList c s m) :=
  inferInstanceAs (Decidable (∀ k ∈ List.range' c.firstHost c.numberOfInvolvedHost, _ ∨ ¬ _ = [] → ∀ v ∈ _, _))

section Policy
variable {R : Type} [Add R] [Sub R] [Div R] [Zero R] [IntCast R] [LT R] [DecidableLT R] [LE R] [DecidableLE R]

/-- The turn of host `m`. An index outside `vm_list` ends the simulation. -/
def policyTurn (math : CMath R) (c : Cluster) (s : State) (m : Nat) (turn : Turn R) : Option State :=
  if InVmList c s m then
    match (scanHost math c s turn.vms turn.cores m).placement with
    | some placement => placeVmAnywhere c s placement turn.stale
    | none => some s
  else none

/-- The body of the loop of `policy_func_inhab_mig` after it woke up, unless all is finished. -/
def wakeup (math : CMath R) (c : Cluster) (s : State) (w : Wakeup R) : Option State :=
  (scanOrder c w.x).foldlM (fun s m => policyTurn math c s m (w.turn m)) s

end Policy

theorem scanFrom_straight (c : Cluster) (left m : Nat) (below : m + left ≤ c.firstHost + c.numberOfInvolvedHost) :
    scanFrom c left m = List.range' m left := by
  induction left generalizing m with
  | zero => rfl
  | succ left ih =>
    have inside : m ≠ c.firstHost + c.numberOfInvolvedHost := by omega
    rw [scanFrom,if_neg inside,ih (m + 1) (by omega),List.range'_succ]

/-- To the last host, and then from the first one on. -/
theorem scanFrom_wrapped (c : Cluster) (a b m : Nat) (last : m + a = c.firstHost + c.numberOfInvolvedHost)
    (few : b ≤ c.numberOfInvolvedHost) : scanFrom c (a + b) m = List.range' m a ++ List.range' c.firstHost b := by
  induction a generalizing m with
  | zero =>
    cases b with
    | zero => rfl
    | succ b =>
      rw [Nat.zero_add,scanFrom,if_pos (by omega),scanFrom_straight c b _ (by omega),List.range'_succ]
      rfl
  | succ a ih =>
    have inside : m ≠ c.firstHost + c.numberOfInvolvedHost := by omega
    rw [Nat.succ_add,scanFrom,if_neg inside,ih (m + 1) (by omega),List.range'_succ]
    rfl

theorem scanOrder_eq (c : Cluster) {x : Nat} (start : x ≤ c.numberOfInvolvedHost) : scanOrder c x =
    List.range' (c.firstHost + x) (c.numberOfInvolvedHost - x) ++ List.range' c.firstHost x := by
  have whole : c.numberOfInvolvedHost = (c.numberOfInvolvedHost - x) + x := by omega
  have order := scanFrom_wrapped c (c.numberOfInvolvedHost - x) x (c.firstHost + x) (by omega) start
  rwa [← whole] at order

/-- From any start, a wakeup gives each host of the cluster one turn. -/
theorem scanOrder_perm (c : Cluster) {x : Nat} (start : x ≤ c.numberOfInvolvedHost) :
    (scanOrder c x).Perm (List.range' c.firstHost c.numberOfInvolvedHost) := by
  have parts := @List.range'_append_1 c.firstHost x (c.numberOfInvolvedHost - x)
  rw [Nat.add_sub_cancel' start] at parts
  rw [scanOrder_eq c start,← parts]
  exact List.perm_append_comm

/-- A word made of the low byte of one of these and the rest of another. -/
structure Blend (words : List Nat) (z : Nat) : Prop where
  high : ∃ w ∈ words, z / 256 = w / 256
  low : ∃ w ∈ words, z % 256 = w % 256

theorem blend_own {words : List Nat} {w : Nat} (member : w ∈ words) : Blend words w :=
  ⟨⟨w, member, rfl⟩, ⟨w, member, rfl⟩⟩

theorem Blend.short {words : List Nat} (short : ∀ w ∈ words, w < 2 ^ 16) {z : Nat} (blend : Blend words z) :
    z < 2 ^ 16 := by
  obtain ⟨w, member, high⟩ := blend.high
  have bound := short w member
  omega

/-- With two bytes in use, what `memmove` makes of two words is such a word again. -/
theorem blend_mix {words : List Nat} (short : ∀ w ∈ words, w < 2 ^ 16) {x y k : Nat} (few : k ≤ 4)
    (first : Blend words x) (second : Blend words y) : Blend words (mix k x y) := by
  have x_short := first.short short
  have y_short := second.short short
  have cases : mix k x y = x ∨ mix k x y = y ∨ mix k x y = x / 256 * 256 + y % 256 := by
    simp only [mix]
    interval_cases k <;> omega
  rcases cases with is | is | is
  · rwa [is]
  · rwa [is]
  · obtain ⟨w, high_member, high⟩ := first.high
    obtain ⟨w', low_member, low⟩ := second.low
    refine ⟨⟨w, high_member, by omega⟩, ⟨w', low_member, by omega⟩⟩

/-- What is left of a list after an entry was pulled out. -/
theorem pull_blend {words : List Nat} (short : ∀ w ∈ words, w < 2 ^ 16) {hvi : HostVmInfo}
    (all : ∀ z ∈ hvi.live, Blend words z) (v : Nat) : ∀ z ∈ (hvi.pull v).live, Blend words z := by
  intro z member
  obtain ⟨i, inside, rfl⟩ := SlotArray.mem_live.mp member
  simp only [HostVmInfo.pull] at inside ⊢
  have entry (j : Nat) (bound : j < hvi.numberOfVms.toNat) : Blend words (hvi.vmsIndex j) :=
    all _ (SlotArray.mem_live.mpr ⟨j, bound, rfl⟩)
  have own := entry i (by omega)
  have fits := own.short short
  rcases Nat.lt_or_ge i (hvi.search v) with before | behind
  · rwa [Bytes.pullBytes_before _ _ _ before (by omega)]
  · rw [Bytes.pullBytes_slot _ _ _ behind (by omega)]
    exact blend_mix short (Nat.min_le_left _ _) own (entry (i + 1) (by omega))

/-- The lists hold only what is made of these words, and all VMs are on hosts of the cluster. -/
structure InRange (c : Cluster) (words : Nat → List Nat) (s : State) : Prop where
  counted : Counted c s
  home : ∀ v < c.vms, c.HasHost (s.pm v)
  listed : ∀ b, c.HasHost b → ∀ z ∈ (s.hostVmInfo b).live, Blend (words b) z

/-- Words of two bytes, the host's own number among them, and no index outside `vm_list` can be made of them. -/
structure Harmonious (c : Cluster) (words : Nat → List Nat) : Prop where
  own : ∀ b, c.HasHost b → b ∈ words b
  short : ∀ b, c.HasHost b → ∀ w ∈ words b, w < 2 ^ 16
  within : ∀ b, c.HasHost b → ∀ w ∈ words b, ∀ w' ∈ words b, w / 256 * 256 + w' % 256 < c.vms

theorem Harmonious.blend {c : Cluster} {words : Nat → List Nat} (harmonious : Harmonious c words) {b z : Nat}
    (host : c.HasHost b) (blend : Blend (words b) z) : z < c.vms := by
  obtain ⟨w, high_member, high⟩ := blend.high
  obtain ⟨w', low_member, low⟩ := blend.low
  have bound := harmonious.within b host w high_member w' low_member
  omega

/-- All that a call can do. -/
theorem placeVmAnywhere_cases {c : Cluster} {s next : State} {placement : VmPlacement} {stale : Int}
    (placed : placeVmAnywhere c s placement stale = some next) : next = s ∨
      next.pm = Function.update s.pm placement.vm placement.targetPm ∧
        0 ≤ (s.hostVmInfo placement.targetPm).numberOfVms ∧
        (let stored := Function.update s.hostVmInfo placement.targetPm
          ((s.hostVmInfo placement.targetPm).append placement.targetPm)
        next.hostVmInfo = Function.update stored (s.pm placement.vm)
          ((stored (s.pm placement.vm)).pull placement.vm)) ∧
        let compared := if s.pm placement.vm = placement.targetPm then stale
          else (s.hostVmInfo placement.targetPm).numberOfVms + 1
        next.maxPmVm = if s.maxPmVm ≤ compared then s.maxPmVm * 2 else s.maxPmVm := by
  unfold placeVmAnywhere at placed
  split at placed
  · contradiction
  · dsimp only at placed
    split at placed
    · exact .inl (Option.some.inj placed).symm
    · split at placed
      · contradiction
      next fine =>
        split at placed
        · contradiction
        · cases placed
          exact .inr ⟨rfl, by omega, rfl, rfl⟩

theorem call_inRange {c : Cluster} {words : Nat → List Nat} (harmonious : Harmonious c words) {s : State}
    (good : InRange c words s) {call : Call} (valid : Valid c call) :
    ∃ next, callStep c s call = some next ∧ InRange c words next := by
  obtain ⟨next, taken, counted, _⟩ := call_counted good.counted valid
  refine ⟨next, taken, ?_⟩
  rcases placeVmAnywhere_cases taken with rfl | ⟨pm, counted_target, lists, _⟩
  · exact good
  · refine ⟨counted, ?_, ?_⟩
    · intro v bound
      rw [pm]
      by_cases same : v = call.1.vm
      · rw [same,Function.update_self]
        exact valid.2
      · rw [Function.update_of_ne same]
        exact good.home v bound
    · have stored (b : Nat) (host : c.HasHost b) : ∀ z ∈ (Function.update s.hostVmInfo call.1.targetPm
          ((s.hostVmInfo call.1.targetPm).append call.1.targetPm) b).live, Blend (words b) z := by
        by_cases target : b = call.1.targetPm
        · subst target
          rw [Function.update_self,live_append counted_target]
          intro z member
          rcases List.mem_append.mp member with old | new
          · exact good.listed _ host z old
          · rw [List.mem_singleton.mp new]
            exact blend_own (harmonious.own _ host)
        · rw [Function.update_of_ne target]
          exact good.listed b host
      intro b host
      rw [lists]
      by_cases source : b = s.pm call.1.vm
      · subst source
        rw [Function.update_self]
        exact pull_blend (harmonious.short _ host) (stored _ host) _
      · rw [Function.update_of_ne source]
        exact stored b host

/-- `max_pm_vm` is positive and no less than the number of VMs of any host. -/
structure Estimated (c : Cluster) (s : State) : Prop where
  counted : Counted c s
  positive : 1 ≤ s.maxPmVm
  covers : ∀ b, Concerns c s b → (s.hostVmInfo b).numberOfVms ≤ s.maxPmVm

/-- A call, where `max_pm_vm` doubles to no more than an `int`. -/
def callStepInt (c : Cluster) (s : State) (call : Call) : Option State :=
  (callStep c s call).bind fun next => if next.maxPmVm < 2 ^ 31 then some next else none

/-- A call doubles the estimate before a host can have more VMs. -/
theorem call_estimated {c : Cluster} {s : State} (good : Estimated c s) {call : Call} (valid : Valid c call) :
    ∃ next, callStep c s call = some next ∧ Estimated c next ∧ s.maxPmVm ≤ next.maxPmVm ∧
      next.maxPmVm ≤ s.maxPmVm * 2 ∧
      (s.pm call.1.vm ≠ call.1.targetPm → next.maxPmVm ≤ max s.maxPmVm (2 * maxVmToPm)) := by
  have positive := good.positive
  rcases call_cases good.counted valid with ⟨_, same⟩ | ⟨room, next, taken, carried⟩
  · exact ⟨s, same, good, le_rfl, by omega, fun _ => le_max_left _ _⟩
  have counted := carried_counted good.counted valid.1 valid.2 room carried
  have estimate : next.maxPmVm = s.maxPmVm ∨ next.maxPmVm = s.maxPmVm * 2 := by
    rcases placeVmAnywhere_cases taken with rfl | ⟨_, _, _, is⟩
    · exact .inl rfl
    · rw [is]
      exact (ite_eq_or_eq _ _ _).symm
  have on_target := good.covers _ (.inl valid.2)
  have doubled : s.pm call.1.vm ≠ call.1.targetPm →
      (next.maxPmVm = s.maxPmVm ∧ (s.hostVmInfo call.1.targetPm).numberOfVms + 1 < s.maxPmVm) ∨
        (next.maxPmVm = s.maxPmVm * 2 ∧ s.maxPmVm ≤ (s.hostVmInfo call.1.targetPm).numberOfVms + 1) := by
    intro away
    rcases placeVmAnywhere_cases taken with rfl | ⟨_, _, _, is⟩
    · have counts := carried.counts call.1.targetPm
      rw [if_neg away,if_pos rfl] at counts
      omega
    · simp only [if_neg away] at is
      split at is <;> omega
  refine ⟨next, taken, ⟨counted, by omega, fun b concerns => ?_⟩, by omega, by omega, fun away => ?_⟩
  · have counts := carried.counts b
    have before : (s.hostVmInfo b).numberOfVms ≤ s.maxPmVm := by
      rcases concerns with host | ⟨v, vm, there⟩
      · exact good.covers b (.inl host)
      · rcases placeVmAnywhere_cases taken with rfl | ⟨pm, _⟩
        · exact good.covers b (.inr ⟨v, vm, there⟩)
        · by_cases moved : v = call.1.vm
          · rw [pm,moved,Function.update_self] at there
            exact there ▸ on_target
          · rw [pm,Function.update_of_ne moved] at there
            exact good.covers b (.inr ⟨v, vm, there⟩)
    by_cases target : call.1.targetPm = b
    · subst target
      by_cases stays : s.pm call.1.vm = call.1.targetPm
      · rw [if_pos stays,if_pos rfl] at counts
        omega
      · rw [if_neg stays,if_pos rfl] at counts
        rcases doubled stays with ⟨_, _⟩ | ⟨_, _⟩ <;> omega
    · rw [if_neg target] at counts
      split at counts <;> omega
  · simp only [maxVmToPm] at room ⊢
    rcases doubled away with ⟨_, _⟩ | ⟨_, _⟩ <;> omega

/-- Only a call onto the host that the VM is on can double an estimate of more than five. -/
theorem call_estimated_int {c : Cluster} {s : State} (good : Estimated c s) (int : s.maxPmVm < 2 ^ 31) {call : Call}
    (valid : Valid c call) (fits : s.pm call.1.vm = call.1.targetPm → s.maxPmVm < 2 ^ 30) :
    ∃ next, callStepInt c s call = some next ∧ Estimated c next ∧ next.maxPmVm < 2 ^ 31 ∧ s.maxPmVm ≤ next.maxPmVm ∧
      (s.pm call.1.vm ≠ call.1.targetPm → next.maxPmVm ≤ max s.maxPmVm (2 * maxVmToPm)) := by
  obtain ⟨next, taken, fine, grown, doubled, bounded⟩ := call_estimated good valid
  have below : next.maxPmVm < 2 ^ 31 := by
    by_cases stays : s.pm call.1.vm = call.1.targetPm
    · have half := fits stays
      omega
    · have most := bounded stays
      simp only [maxVmToPm] at most
      omega
  refine ⟨next, ?_, fine, below, grown, bounded⟩
  rw [callStepInt,taken,Option.bind_some,if_pos below]

/-- Through any sequence of valid calls, none of which places a VM on the host it is on when the doubled `max_pm_vm`
would be no `int`, `max_pm_vm` never shrinks and no host has more VMs than it says; and unless a VM is placed on the
host it is on, where freed memory decides, it stays as it was or at most at ten. -/
theorem host_estimate {c : Cluster} {s : State} (good : Estimated c s) (int : s.maxPmVm < 2 ^ 31) {calls : List Call}
    (valid : ∀ call ∈ calls, Valid c call)
    (fits : Runs.Each (callStepInt c) s calls fun mid call =>
      mid.pm call.1.vm = call.1.targetPm → mid.maxPmVm < 2 ^ 30) :
    ∃ final, Runs.run (callStepInt c) s calls = some final ∧ s.maxPmVm ≤ final.maxPmVm ∧
      (∀ b, Concerns c final b → (final.hostVmInfo b).numberOfVms ≤ final.maxPmVm) ∧
      (Runs.Each (callStepInt c) s calls (fun mid call => mid.pm call.1.vm ≠ call.1.targetPm) →
        final.maxPmVm ≤ max s.maxPmVm (2 * maxVmToPm)) := by
  induction calls generalizing s with
  | nil => exact ⟨s, rfl, le_rfl, good.covers, fun _ => le_max_left _ _⟩
  | cons call rest ih =>
    obtain ⟨now, others⟩ := List.forall_mem_cons.mp valid
    obtain ⟨small, later⟩ := Runs.each_cons.mp fits
    obtain ⟨next, taken, fine, below, grown, bounded⟩ := call_estimated_int good int now small
    obtain ⟨final, reached, more, covers, bound⟩ := ih fine below others (later next taken)
    refine ⟨final, Runs.run_step taken reached, grown.trans more, covers, fun away => ?_⟩
    obtain ⟨first, following⟩ := Runs.each_cons.mp away
    exact (bound (following next taken)).trans (max_le (bounded first) (le_max_right _ _))

/-- The first host has its two VMs and may have two; VM 0 goes to the second one and VM 1 follows it. -/
theorem host_estimate_both : ∃ final,
    Runs.run (callStepInt twoHosts) bothOnFirst [(⟨0, 1⟩, 0), (⟨1, 1⟩, 0)] = some final ∧ final.maxPmVm ≤ 10 := by
  have good : Estimated twoHosts bothOnFirst := by
    refine ⟨bothOnFirst_counted, by decide, fun b concerns => ?_⟩
    have fits : ∀ b, (bothOnFirst.hostVmInfo b).numberOfVms ≤ 2 := by
      intro b
      simp only [bothOnFirst]
      split <;> decide
    exact fits b
  have valid : ∀ call ∈ [(⟨0, 1⟩, 0), (⟨1, 1⟩, 0)], Valid twoHosts call := by
    simp [Valid,Cluster.HasHost,twoHosts]
  have away : Runs.Each (callStepInt twoHosts) bothOnFirst [(⟨0, 1⟩, 0), (⟨1, 1⟩, 0)] fun mid call =>
      mid.pm call.1.vm ≠ call.1.targetPm := by
    have first : bothOnFirst.pm 0 ≠ 1 := by decide
    refine Runs.each_cons.mpr ⟨first, fun next taken => Runs.each_cons.mpr ⟨?_, fun _ _ => Runs.each_nil _ _ _⟩⟩
    obtain ⟨mid, is, there⟩ : ∃ mid, callStepInt twoHosts bothOnFirst (⟨0, 1⟩, 0) = some mid ∧ mid.pm 1 = 0 :=
      ⟨_, rfl, rfl⟩
    cases is.symm.trans taken
    rw [there]
    decide
  obtain ⟨final, reached, _, _, bound⟩ :=
    host_estimate good (by decide) valid fun past call rest mid parts before stays =>
      absurd stays (away past call rest mid parts before)
  exact ⟨final, reached, bound away⟩

section Policy
variable {R : Type} [Add R] [Sub R] [Div R] [Zero R] [IntCast R] [LT R] [DecidableLT R] [LE R] [DecidableLE R]

/-- The turn of a host goes through, whatever it finds. -/
theorem policyTurn_inRange (math : CMath R) {c : Cluster} {words : Nat → List Nat} (harmonious : Harmonious c words)
    {s : State} (good : InRange c words s) {m : Nat} (host : c.HasHost m) (turn : Turn R) :
    ∃ next, policyTurn math c s m turn = some next ∧ InRange c words next := by
  have inside : InVmList c s m := by
    intro k member _ v listed
    obtain ⟨above, below⟩ := List.mem_range'_1.mp member
    exact harmonious.blend ⟨above, below⟩ (good.listed k ⟨above, below⟩ v listed)
  rw [policyTurn,if_pos inside]
  cases selected : (scanHost math c s turn.vms turn.cores m).placement with
  | none => exact ⟨s, rfl, good⟩
  | some placement =>
    obtain ⟨listed, target, _, _⟩ := scanHost_stable selected
    have vm := harmonious.blend host (good.listed m host placement.vm listed)
    exact @call_inRange c words harmonious s good (placement, turn.stale) ⟨vm, target⟩

theorem wakeup_inRange (math : CMath R) {c : Cluster} {words : Nat → List Nat} (harmonious : Harmonious c words)
    {s : State} (good : InRange c words s) {w : Wakeup R} (start : w.x ≤ c.numberOfInvolvedHost) :
    ∃ next, wakeup math c s w = some next ∧ InRange c words next := by
  have hosts : ∀ m ∈ scanOrder c w.x, c.HasHost m := by
    intro m member
    exact List.mem_range'_1.mp ((scanOrder_perm c start).mem_iff.mp member)
  rw [wakeup]
  generalize scanOrder c w.x = order at hosts
  induction order generalizing s with
  | nil => exact ⟨s, rfl, good⟩
  | cons m rest ih =>
    obtain ⟨host, others⟩ := List.forall_mem_cons.mp hosts
    obtain ⟨next, turned, fine⟩ := policyTurn_inRange math harmonious good host (w.turn m)
    rw [List.foldlM_cons,turned]
    exact ih fine others

/-- Where no index outside `vm_list` can be made of the bytes of a host's first entries and of its own number, the
policy goes through any number of wakeups, with any starts and loads; every host has one turn in each, and in the
end the counts are right and all entries are in `vm_list`. -/
theorem policy_stays_in_range (math : CMath R) {c : Cluster} {s : State} (right : Counted c s)
    (home : ∀ v < c.vms, c.HasHost (s.pm v)) (hosts : c.firstHost + c.numberOfInvolvedHost ≤ 2 ^ 16)
    (short : ∀ b, c.HasHost b → ∀ w ∈ (s.hostVmInfo b).live, w < 2 ^ 16)
    (within : ∀ b, c.HasHost b → ∀ w ∈ b :: (s.hostVmInfo b).live, ∀ w' ∈ b :: (s.hostVmInfo b).live,
      w / 256 * 256 + w' % 256 < c.vms)
    {wakeups : List (Wakeup R)} (starts : ∀ w ∈ wakeups, w.x < c.numberOfInvolvedHost) :
    (∀ w ∈ wakeups, (scanOrder c w.x).Perm (List.range' c.firstHost c.numberOfInvolvedHost)) ∧
      ∃ final, Runs.run (wakeup math c) s wakeups = some final ∧ Counted c final ∧
        ∀ b, c.HasHost b → ∀ v ∈ (final.hostVmInfo b).live, v < c.vms := by
  have harmonious : Harmonious c fun b => b :: (s.hostVmInfo b).live := by
    refine ⟨fun b _ => List.mem_cons_self, fun b host w member => ?_, within⟩
    rcases List.mem_cons.mp member with rfl | listed
    · have below := host.2
      omega
    · exact short b host w listed
  have initial : InRange c (fun b => b :: (s.hostVmInfo b).live) s :=
    ⟨right, home, fun b host z listed => blend_own (List.mem_cons_of_mem _ listed)⟩
  obtain ⟨final, reached, good⟩ := Runs.run_total (wakeup math c) (InRange c _) (fun w => w.x ≤ c.numberOfInvolvedHost)
    (fun mid w fine start => wakeup_inRange math harmonious fine start) initial wakeups
    fun w member => (starts w member).le
  refine ⟨fun w member => scanOrder_perm c (starts w member).le, final, reached, good.counted, ?_⟩
  intro b host v listed
  exact harmonious.blend host (good.listed b host v listed)

end Policy

/-- What the load balancer finds of a launch. -/
def Launch.state (launch : Launch) (vmToHost : Nat) : State where
  hostVmInfo b := (launch.hostVmInfo b).getD ⟨0, fun _ => 0⟩
  pm v := (launch.vmList[v]?).elim 0 (·.pm)
  maxPmVm := vmToHost + 1
  migrationCount := 0

/-- After `past` hosts have got `q` VMs each. -/
structure LaunchedEvenly (q past : Nat) (s : Launch) : Prop where
  position : s.i = past * q
  created : s.vmList = (List.range (past * q)).map fun v => ⟨v, v / q⟩
  listed : ∀ b < past, ∃ hvi, s.hostVmInfo b = some hvi ∧ hvi.live = List.range' (b * q) q ∧ hvi.numberOfVms = q

theorem launchHost_evenly {q n j : Nat} {s : Launch} (evenly : LaunchedEvenly q j s) (host : j < n) :
    LaunchedEvenly q (j + 1) (launchHost (n * q) q 0 s j) := by
  have room : j * q + q ≤ n * q := by
    rw [← Nat.succ_mul]
    exact Nat.mul_le_mul_right q host
  have count : q = min (quota q 0 j) (n * q - s.i) := by
    have position := evenly.position
    simp only [quota,ne_eq,not_true_eq_false,false_and,if_false]
    omega
  obtain ⟨hvi, result, live, number⟩ := launchHost_eq (n * q) q 0 s j count
  rw [result]
  constructor
  · simp only [evenly.position,Nat.succ_mul]
  · have shares : (List.range' (j * q) q).map (fun v => (⟨v, v / q⟩ : LaunchedVm)) =
        (List.range' (j * q) q).map (⟨·, j⟩) := by
      apply List.map_congr_left
      intro v member
      obtain ⟨above, below⟩ := List.mem_range'_1.mp member
      have quotient : v / q = j := Nat.div_eq_of_lt_le (by omega) (by rw [Nat.succ_mul]; omega)
      rw [quotient]
    dsimp only
    rw [evenly.created,evenly.position,Nat.succ_mul,← shares,← List.map_append,List.range_add,
      List.range'_eq_map_range]
  · intro b below
    by_cases here : b = j
    · subst here
      exact ⟨hvi, Function.update_self .., evenly.position ▸ live, number⟩
    · obtain ⟨info, is, lists⟩ := evenly.listed b (by omega)
      exact ⟨info, (Function.update_of_ne here ..).trans is, lists⟩

theorem launch_evenly {q n : Nat} (positive : 0 < n) :
    ∃ launch, launchMasterVms (n * q) n 0 = some launch ∧ LaunchedEvenly q n launch := by
  rw [launchMasterVms,if_neg (Nat.pos_iff_ne_zero.mp positive),Nat.mul_div_cancel_left q positive,
    Nat.mul_mod_right]
  refine ⟨_, rfl, ?_⟩
  have hosts : ∀ past ≤ n, LaunchedEvenly q past
      ((List.range' 0 past).foldl (launchHost (n * q) q 0) ⟨0, [], fun _ => none⟩) := by
    intro past within
    induction past with
    | zero => exact ⟨by simp, by simp, by simp⟩
    | succ past ih =>
      rw [List.range'_concat,List.foldl_append,Nat.one_mul,Nat.zero_add]
      exact launchHost_evenly (ih (by omega)) within
  exact hosts n le_rfl

/-- With `q` VMs on each host, the VMs with numbers from `b * q` on are those of host `b`. -/
theorem countP_share {q : Nat} (positive : 0 < q) (n b : Nat) :
    (List.range (n * q)).countP (· / q = b) = if b < n then q else 0 := by
  induction n with
  | zero => simp
  | succ n ih =>
    have share (v : Nat) (member : v ∈ List.range q) : (n * q + v) / q = n := by
      have below := List.mem_range.mp member
      exact Nat.div_eq_of_lt_le (by omega) (by rw [Nat.succ_mul]; omega)
    have last : (List.range q).countP (fun v => (n * q + v) / q = b) = if b = n then q else 0 := by
      split
      next same =>
        have all := List.countP_eq_length.mpr fun v member => decide_eq_true ((share v member).trans same.symm)
        rw [all,List.length_range]
      next other =>
        apply List.countP_eq_zero.mpr
        intro v member
        simp [share v member,Ne.symm other]
    rw [Nat.succ_mul,List.range_add,List.countP_append,ih,List.countP_map]
    change _ + (List.range q).countP (fun v => (n * q + v) / q = b) = _
    rw [last]
    split <;> split <;> split <;> omega

theorem evenly_counted {c : Cluster} {q n : Nat} {launch : Launch} (evenly : LaunchedEvenly q n launch)
    (cluster : c.vms = n * q ∧ c.firstHost = 0 ∧ c.numberOfInvolvedHost = n) (positive : 0 < q)
    (fits : (q : Int) ≤ maxVmToPm) :
    Counted c (launch.state q) ∧ (∀ v < c.vms, c.HasHost ((launch.state q).pm v)) ∧
      ∀ b < n, ((launch.state q).hostVmInfo b).live = List.range' (b * q) q := by
  obtain ⟨vms, first, number⟩ := cluster
  have pm (v : Nat) (vm : v < c.vms) : (launch.state q).pm v = v / q := by
    rw [vms] at vm
    simp [Launch.state,evenly.created,vm]
  have host (v : Nat) (vm : v < c.vms) : v / q < n := Nat.div_lt_of_lt_mul (by rwa [vms,Nat.mul_comm] at vm)
  have info (b : Nat) (below : b < n) : ((launch.state q).hostVmInfo b).numberOfVms = q ∧
      ((launch.state q).hostVmInfo b).live = List.range' (b * q) q := by
    obtain ⟨hvi, is, live, counted⟩ := evenly.listed b below
    simp only [Launch.state,is]
    exact ⟨counted, live⟩
  have concerns (b : Nat) (of_cluster : Concerns c (launch.state q) b) : b < n := by
    rcases of_cluster with ⟨_, below⟩ | ⟨v, vm, rfl⟩
    · omega
    · rw [pm v vm]
      exact host v vm
  refine ⟨⟨fun b of_cluster => ?_, fun b of_cluster => ?_⟩, fun v vm => ?_, fun b below => (info b below).2⟩
  · have below := concerns b of_cluster
    have really : occupancy c (launch.state q) b = (List.range (n * q)).countP (· / q = b) := by
      rw [occupancy,vms]
      apply List.countP_congr
      intro v member
      rw [pm v (vms ▸ List.mem_range.mp member)]
    rw [(info b below).1,really,countP_share positive,if_pos below]
  · rw [(info b (concerns b of_cluster)).1]
    exact fits
  · rw [pm v vm,Cluster.HasHost,first,number]
    exact ⟨Nat.zero_le _, (Nat.zero_add n).symm ▸ host v vm⟩

/-- The deployed cluster of a load balancer: 300 hosts with four VMs each. -/
def deployedCluster : Cluster := ⟨603, 1200, 0, 300, by decide, by decide⟩

/-- At first all VMs are idle, then the first of them has more processes than the others. -/
def deployedWakeups : List (Wakeup ℚ) :=
  [⟨7, fun _ => ⟨fun _ => ⟨0, 1, 0⟩, fun _ => 1, 0⟩⟩,
    ⟨299, fun _ => ⟨fun v => ⟨if v = 0 then 9 else 1, 1, 0⟩, fun _ => 1, 0⟩⟩]

/-- No mix of the bytes of a host's numbers in the deployment is 1200 or more. -/
theorem deployed_policy_stays_in_range : ∃ launch final, launchMasterVms 1200 300 0 = some launch ∧
    Runs.run (wakeup Organizer.exactMath deployedCluster) (launch.state 4) deployedWakeups = some final ∧
      Counted deployedCluster final ∧
        ∀ b, deployedCluster.HasHost b → ∀ v ∈ (final.hostVmInfo b).live, v < 1200 := by
  obtain ⟨launch, launched, evenly⟩ := @launch_evenly 4 300 (by decide)
  obtain ⟨right, home, lists⟩ :=
    @evenly_counted deployedCluster 4 300 launch evenly ⟨rfl, rfl, rfl⟩ (by decide) (by decide)
  have listed (b : Nat) (host : deployedCluster.HasHost b) (w : Nat)
      (member : w ∈ b :: ((launch.state 4).hostVmInfo b).live) :
      b < 300 ∧ (w = b ∨ b * 4 ≤ w ∧ w < b * 4 + 4) := by
    have below : b < 300 := by simpa [deployedCluster] using host.2
    rw [lists b below,List.mem_cons,List.mem_range'_1] at member
    exact ⟨below, member⟩
  have short (b : Nat) (host : deployedCluster.HasHost b) :
      ∀ w ∈ ((launch.state 4).hostVmInfo b).live, w < 2 ^ 16 := by
    intro w member
    have own := listed b host w (List.mem_cons_of_mem _ member)
    omega
  have within (b : Nat) (host : deployedCluster.HasHost b) :
      ∀ w ∈ b :: ((launch.state 4).hostVmInfo b).live, ∀ w' ∈ b :: ((launch.state 4).hostVmInfo b).live,
        w / 256 * 256 + w' % 256 < deployedCluster.vms := by
    intro w member w' member'
    have first := listed b host w member
    have second := listed b host w' member'
    simp only [deployedCluster]
    omega
  have starts : ∀ w ∈ deployedWakeups, w.x < deployedCluster.numberOfInvolvedHost := by decide
  obtain ⟨_, final, reached, counted, inside⟩ :=
    policy_stays_in_range Organizer.exactMath right home (by decide) short within starts
  exact ⟨launch, final, launched, reached, counted, inside⟩

end Hpvc.HostBalancer
