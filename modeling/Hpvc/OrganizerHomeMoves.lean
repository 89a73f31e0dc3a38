import Hpvc.OrganizerDecision
import Hpvc.OrganizerPlacementInvariant

/-! When a round "migrates" a VM to the PM it is on. The source prints a warning then, and goes
on. The estimate for staying takes the mean latencies of all VMs of the PM, so it can be
lower than what the VM has now with its own. -/
namespace Hpvc.Organizer

/-- What a VM has now: its traffic with all VMs, in both directions. -/
def traffic (n : Nat) (m : Matrices ℚ) (i : Nat) : ℚ :=
  ((List.range n).map fun j => m.rate i j * m.latency i j + m.rate j i * m.latency j i).sum

/-- The VMs that really are on a PM. -/
def residents (n : Nat) (s : Placement) (i : Nat) : List Nat :=
  (List.range n).filter fun v => s.pm v = i

/-- The mean latency from the VMs of a PM to `j`, and back. -/
def meanLatency (m : Matrices ℚ) (vms : List Nat) (j : Nat) : ℚ × ℚ :=
  if vms = [] then (initialTransmissionLatency, initialTransmissionLatency)
  else ((vms.map fun a => m.latency a j).sum / vms.length, (vms.map fun a => m.latency j a).sum / vms.length)

/-- What VM `c` would have on PM `i`, without the time of the migration. -/
def estimate (n : Nat) (m : Matrices ℚ) (s : Placement) (c i : Nat) : ℚ :=
  ((List.range n).map fun j => m.rate c j * (meanLatency m (residents n s i) j).1 +
    m.rate j c * (meanLatency m (residents n s i) j).2).sum

/-- What staying seems to save: at each VM, the own latency against the mean of the PM. -/
def stayingSaves (n : Nat) (m : Matrices ℚ) (s : Placement) (c : Nat) : ℚ :=
  ((List.range n).map fun j =>
    m.rate c j * (m.latency c j - (meanLatency m (residents n s (s.pm c)) j).1) +
      m.rate j c * (m.latency j c - (meanLatency m (residents n s (s.pm c)) j).2)).sum

/-- The busiest VM but the last candidate is on a PM that is not full, where the mean
latencies are lower than its own by more than the threshold and the time of a migration. -/
structure Tempted (p : Platform) (params : Params ℚ) (m : Matrices ℚ) (s : Placement) (last : Int)
    (c : Nat) : Prop where
  busiest : FirstMax params.numberOfVMs (traffic params.numberOfVMs m) last c
  room : HasRoom p s (s.pm c)
  saves : 11 / 2 + downTime params (homPMIndex p s c) (s.pm c) < stayingSaves params.numberOfVMs m s c

/-- No PM with room looks better than the one the VM is on. -/
def HomeCheapest (p : Platform) (params : Params ℚ) (m : Matrices ℚ) (s : Placement) (c : Nat) : Prop :=
  let cost (i : Nat) := estimate params.numberOfVMs m s c i + downTime params (homPMIndex p s c) i
  ∀ i, HasRoom p s i → cost (s.pm c) ≤ cost i ∧ (cost i = cost (s.pm c) → s.pm c ≤ i)

/-- The round's call, if it makes one, has another target than the PM the VM is on. -/
def NeverHome (p : Platform) (params : Params ℚ) (m : Matrices ℚ) (s : Placement) (last : Int) : Prop :=
  ∀ vm target, decision p params m s last = some (some (vm, target)) → target ≠ s.pm vm

theorem foldl_two_sums (f g : Nat → ℚ) (l : List Nat) (x : ℚ) :
    l.foldl (fun x j => x + f j + g j) x = x + (l.map fun j => f j + g j).sum := by
  induction l generalizing x with
  | nil => simp
  | cons j rest ih =>
    rw [List.foldl_cons,ih,List.map_cons,List.sum_cons]
    ring

theorem computeH_eq (n : Nat) (m : Matrices ℚ) : computeH n m = traffic n m := by
  funext i
  rw [computeH,foldl_two_sums,Int.cast_zero,zero_add,traffic]

/-- The lists agree with the real placement. -/
abbrev Filed (p : Platform) (n : Nat) (s : Placement) : Prop :=
  Bins.Accurate (· < n) (· < p.numberOfInvolvedHost) s.pm fun i => (s.dataOfPMs i).live

theorem averageLatency_eq {p : Platform} {n : Nat} {s : Placement} (filed : Filed p n s)
    (m : Matrices ℚ) {i : Nat} (inside : i < p.numberOfInvolvedHost) (j : Nat) :
    averageLatency m (s.dataOfPMs i) j = meanLatency m (residents n s i) j := by
  have same : (s.dataOfPMs i).live.Perm (residents n s i) := by
    apply (List.perm_ext_iff_of_nodup (filed.nodup inside) (List.nodup_range.filter _)).mpr
    intro v
    rw [filed.mem_iff inside]
    simp
  have count : (residents n s i).length = (s.dataOfPMs i).numberOfVMs := by
    rw [← same.length_eq,live_length]
  have sums (l : List Nat) (x : ℚ × ℚ) :
      l.foldl (fun x agent => (x.1 + m.latency agent j, x.2 + m.latency j agent)) x =
        (x.1 + (l.map fun a => m.latency a j).sum, x.2 + (l.map fun a => m.latency j a).sum) := by
    induction l generalizing x with
    | nil => simp
    | cons a rest ih =>
      rw [List.foldl_cons,ih]
      simp [add_assoc]
  unfold averageLatency meanLatency
  dsimp only
  rw [sums,(same.map _).sum_eq,(same.map _).sum_eq,← count]
  by_cases empty : residents n s i = []
  · simp [empty]
  · rw [if_pos (List.length_pos_of_ne_nil empty),if_neg empty]
    simp

theorem computeNextH_eq {p : Platform} {params : Params ℚ} {s : Placement}
    (filed : Filed p params.numberOfVMs s) (m : Matrices ℚ) (c : Nat) {i : Nat}
    (inside : i < p.numberOfInvolvedHost) :
    computeNextH p params m s c i =
      estimate params.numberOfVMs m s c i + downTime params (homPMIndex p s c) i := by
  rw [computeNextH,communicationCost,foldl_two_sums,Int.cast_zero,zero_add]
  simp only [averageLatency_eq filed m inside]
  rfl

/-- What staying saves is the difference of the two sums. -/
theorem stayingSaves_eq (n : Nat) (m : Matrices ℚ) (s : Placement) (c : Nat) :
    stayingSaves n m s c = traffic n m c - estimate n m s c (s.pm c) := by
  unfold stayingSaves traffic estimate
  induction List.range n with
  | nil => simp
  | cons j rest ih =>
    simp only [List.map_cons,List.sum_cons,ih]
    ring

/-- A VM that is alone on its PM is not tempted: the mean is its own latency. -/
theorem alone_not_tempted {p : Platform} {params : Params ℚ} {m : Matrices ℚ} {s : Placement} {last : Int}
    {c : Nat} (same : 0 ≤ params.vmDownTimeServiceSameCluster)
    (other : 0 ≤ params.vmDownTimeServiceOtherCluster)
    (alone : residents params.numberOfVMs s (s.pm c) = [c]) : ¬ Tempted p params m s last c := by
  intro tempted
  have nothing : stayingSaves params.numberOfVMs m s c = 0 := by
    unfold stayingSaves
    rw [alone]
    simp [meanLatency]
  have time : 0 ≤ downTime params (homPMIndex p s c) (s.pm c) := by
    unfold downTime
    split <;> assumption
  have saves := tempted.saves
  rw [nothing] at saves
  linarith

/-- A call that goes home is a temptation. -/
theorem home_tempted {p : Platform} {params : Params ℚ} {m : Matrices ℚ} {s : Placement} {last : Int}
    {vm : Nat} (filed : Filed p params.numberOfVMs s) (entries : NonNeg m)
    (same : 0 ≤ params.vmDownTimeServiceSameCluster) (other : 0 ≤ params.vmDownTimeServiceOtherCluster)
    (decided : decision p params m s last = some (some (vm, s.pm vm))) : Tempted p params m s last vm := by
  obtain ⟨first, chosen⟩ := decision_busiest entries same other decided
  have gain := chooseTarget_gain chosen
  have room := chooseTarget_free chosen
  rw [computeH_eq] at first gain
  rw [computeNextH_eq filed m vm room.1] at gain
  refine ⟨first, room, ?_⟩
  rw [stayingSaves_eq]
  linarith

/-- Up to 2^24 PMs, where the indices survive the sort, a temptation ends in a call that goes
home unless another PM looks better. -/
theorem tempted_home {p : Platform} {params : Params ℚ} {m : Matrices ℚ} {s : Placement} {last : Int}
    {c : Nat} (small : p.numberOfInvolvedHost ≤ 2 ^ 24) (filed : Filed p params.numberOfVMs s)
    (entries : NonNeg m) (same : 0 ≤ params.vmDownTimeServiceSameCluster)
    (other : 0 ≤ params.vmDownTimeServiceOtherCluster) (tempted : Tempted p params m s last c)
    (cheapest : HomeCheapest p params m s c) :
    decision p params m s last = some (some (c, s.pm c)) := by
  have costs (i : Nat) (room : HasRoom p s i) := computeNextH_eq filed m c room.1
  have gain := tempted.saves
  rw [stayingSaves_eq] at gain
  have home := costs (s.pm c) tempted.room
  have nonneg := computeNextH_nonneg (p := p) (s := s) entries.rate entries.latency same other c (s.pm c)
  have candidate : findCandidate params.numberOfVMs (computeH params.numberOfVMs m) last =
      (traffic params.numberOfVMs m c, c) := by
    rcases findCandidate_spec params.numberOfVMs (computeH params.numberOfVMs m) last with
      ⟨_, none⟩ | ⟨d, found, first, _⟩
    · have idle := none c tempted.busiest.bound tempted.busiest.other
      rw [computeH_eq] at idle
      linarith
    · rw [computeH_eq] at first
      obtain rfl := first.unique tempted.busiest
      rw [found,computeH_eq]
  rcases chooseTarget_spec small s (traffic params.numberOfVMs m c) (computeNextH p params m s c) with
    ⟨_, dear⟩ | ⟨t, chosen, room, _, least⟩
  · have := dear (s.pm c) tempted.room
    linarith
  · obtain ⟨le, tie⟩ := least (s.pm c) tempted.room
    obtain ⟨ge, back⟩ := cheapest t room
    dsimp only at ge back
    rw [← home,← costs t room] at ge back
    have equal := le_antisymm le ge
    have is : t = s.pm c := Nat.le_antisymm (tie equal.symm) (back equal)
    unfold decision
    rw [candidate]
    dsimp only
    rw [chosen,is]
    rfl

/-- For every accurate placement and matrices and times that are not negative: no round
calls `migrate_vm` with the PM the VM is on, if no VM is tempted; and with up to 2^24 PMs
exactly if each tempted VM sees a better PM than its own. -/
theorem never_home_iff {p : Platform} {params : Params ℚ} {m : Matrices ℚ} {s : Placement}
    (filed : Filed p params.numberOfVMs s) (entries : NonNeg m)
    (same : 0 ≤ params.vmDownTimeServiceSameCluster) (other : 0 ≤ params.vmDownTimeServiceOtherCluster)
    (last : Int) :
    ((∀ c, ¬ Tempted p params m s last c) → NeverHome p params m s last) ∧
    (p.numberOfInvolvedHost ≤ 2 ^ 24 → (NeverHome p params m s last ↔
      ∀ c, Tempted p params m s last c → ¬ HomeCheapest p params m s c)) := by
  constructor
  · rintro none vm _ decided rfl
    exact none vm (home_tempted filed entries same other decided)
  · intro small
    constructor
    · intro never c tempted cheapest
      exact never c _ (tempted_home small filed entries same other tempted cheapest) rfl
    · rintro better vm _ decided rfl
      refine better vm (home_tempted filed entries same other decided) ?_
      obtain ⟨_, chosen⟩ := decision_busiest entries same other decided
      rcases chooseTarget_spec small s (computeH params.numberOfVMs m vm) (computeNextH p params m s vm) with
        ⟨nothing, _⟩ | ⟨t, is, room, _, least⟩
      · cases nothing.symm.trans chosen
      · cases is.symm.trans chosen
        intro i free
        have better := least i free
        rwa [computeNextH_eq filed m vm free.1,computeNextH_eq filed m vm room.1] at better

/-- Two VMs on the only PM; VM 1 has a low latency with itself. -/
def twoOnOnePM : Placement := ⟨fun _ => ⟨some "c-0.me", 2, id⟩, fun _ => 0⟩

def busyMatrices : Matrices ℚ := ⟨fun _ _ => 10, fun i j => if i = 1 ∧ j = 1 then 1 else 10⟩

theorem twoOnOnePM_filed : Filed ⟨["c-0.me", "c-1.me"]⟩ 2 twoOnOnePM where
  home_bin _ _ := Nat.zero_lt_one
  only_items b _ v member := by
    have listed : v ∈ [0, 1] := member
    simp only [List.mem_cons,List.not_mem_nil,or_false] at listed
    show v < 2
    omega
  count b inside v hv := by
    have first : b = 0 := by
      simp only [Platform.numberOfInvolvedHost,List.length_cons,List.length_nil] at inside
      omega
    subst first
    revert v
    decide

/-- With equal latencies everywhere the mean is what a VM has, and no VM is tempted. -/
theorem never_home_two : NeverHome ⟨["c-0.me", "c-1.me"]⟩ ⟨2, 1 / 10, 17, 20⟩
    ⟨fun _ _ => 10, fun _ _ => 10⟩ twoOnOnePM (-1) := by
  have entries : NonNeg ⟨fun _ _ => 10, fun _ _ => 10⟩ :=
    ⟨fun _ _ => by norm_num, fun _ _ => by norm_num⟩
  apply (never_home_iff twoOnOnePM_filed entries (by norm_num) (by norm_num) (-1)).1
  intro c tempted
  have inside : c < 2 := tempted.busiest.bound
  have which : c = 0 ∨ c = 1 := by omega
  have nothing : ¬ 11 / 2 + downTime (R := ℚ) ⟨2, 1 / 10, 17, 20⟩
      (homPMIndex ⟨["c-0.me", "c-1.me"]⟩ twoOnOnePM c) (twoOnOnePM.pm c) <
        stayingSaves 2 ⟨fun _ _ => 10, fun _ _ => 10⟩ twoOnOnePM c := by
    rcases which with rfl | rfl <;> decide +kernel
  exact nothing tempted.saves

theorem busyMatrices_nonneg : NonNeg busyMatrices where
  rate _ _ := by
    unfold busyMatrices
    norm_num
  latency i j := by
    unfold busyMatrices
    dsimp only
    split <;> norm_num

/-- VM 0 has 400 now, and 327 in the estimate for the PM it is on. -/
theorem migrated_home :
    Filed ⟨["c-0.me", "c-1.me"]⟩ 2 twoOnOnePM ∧ NonNeg busyMatrices ∧
    decision ⟨["c-0.me", "c-1.me"]⟩ ⟨2, 1 / 10, 17, 20⟩ busyMatrices twoOnOnePM (-1) = some (some (0, 0)) ∧
    ¬ NeverHome ⟨["c-0.me", "c-1.me"]⟩ ⟨2, 1 / 10, 17, 20⟩ busyMatrices twoOnOnePM (-1) := by
  have decided : decision ⟨["c-0.me", "c-1.me"]⟩ ⟨2, 1 / 10, 17, 20⟩ busyMatrices twoOnOnePM (-1) =
      some (some (0, 0)) := by decide +kernel
  exact ⟨twoOnOnePM_filed, busyMatrices_nonneg, decided, fun never => never 0 0 decided rfl⟩

end Hpvc.Organizer
