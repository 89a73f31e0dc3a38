import Hpvc.OrganizerRound
import Mathlib.Algebra.Order.Field.Rat
import Mathlib.Tactic.Linarith
import Mathlib.Tactic.Positivity

/-! The decision of one organizer round in exact arithmetic: which VM is moved, when,
and to which PM, for every content of the smoothed matrices and every placement. -/
namespace Hpvc.Organizer

/-- `c` is the first index with the largest `h` among the VMs other than the last candidate. -/
structure FirstMax (n : Nat) (h : Nat → ℚ) (last : Int) (c : Nat) : Prop where
  bound : c < n
  other : (c : Int) ≠ last
  largest : ∀ i < n, (i : Int) ≠ last → h i ≤ h c
  first : ∀ i < c, (i : Int) ≠ last → h i < h c

theorem FirstMax.unique {n : Nat} {h : Nat → ℚ} {last : Int} {c d : Nat}
    (hc : FirstMax n h last c) (hd : FirstMax n h last d) : c = d := by
  rcases Nat.lt_trichotomy c d with before | same | after
  · exact absurd (hd.first c before hc.other) (not_lt.mpr (hc.largest d hd.bound hd.other))
  · exact same
  · exact absurd (hc.first d after hd.other) (not_lt.mpr (hd.largest c hc.bound hc.other))

/-- The scan for the candidate finds the first maximum, if there is positive traffic. -/
theorem findCandidate_spec (n : Nat) (h : Nat → ℚ) (last : Int) :
    (findCandidate n h last = (0, 0) ∧ ∀ i < n, (i : Int) ≠ last → h i ≤ 0) ∨
      ∃ c, findCandidate n h last = (h c, c) ∧ FirstMax n h last c ∧ 0 < h c := by
  rcases Pick.pick_winner (fun i : Nat => (i : Int) != last) h id Pick.more_trans Pick.more_weak
    (List.range n) (((0 : Int) : ℚ), 0) with
    ⟨same, none⟩ | ⟨c, found, won, above⟩
  · left
    refine ⟨by simpa [findCandidate] using same, fun i bound other => ?_⟩
    have := none i (List.mem_range.mpr bound) (by simpa using other)
    simpa [Pick.more] using this
  · right
    obtain ⟨bound, pre, post⟩ := won.range
    have other : (c : Int) ≠ last := by simpa using won.allowed
    refine ⟨c, found, ⟨bound, other, fun i inside differs => ?_, fun i below differs => ?_⟩,
      by simpa [Pick.more] using above⟩
    · rcases Nat.lt_trichotomy i c with below | rfl | beyond
      · have := pre i below (by simpa using differs)
        simp only [Pick.more,decide_eq_true_eq] at this
        exact this.le
      · exact le_rfl
      · have := post i inside beyond (by simpa using differs)
        simpa [Pick.more] using this
    · have := pre i below (by simpa using differs)
      simpa [Pick.more] using this

/-- A sum of terms that are not negative, accumulated from one that is not. -/
theorem foldl_nonneg {f : ℚ → α → ℚ} (grows : ∀ x a, 0 ≤ x → 0 ≤ f x a) (l : List α) {x : ℚ}
    (start : 0 ≤ x) : 0 ≤ l.foldl f x := by
  induction l generalizing x with
  | nil => exact start
  | cons a rest ih => exact ih (grows x a start)

theorem averageLatency_nonneg {m : Matrices ℚ} (latencies : ∀ i j, 0 ≤ m.latency i j)
    (data : DataOfPM) (j : Nat) :
    0 ≤ (averageLatency m data j).1 ∧ 0 ≤ (averageLatency m data j).2 := by
  have sums (l : List Nat) (s : ℚ × ℚ) (start : 0 ≤ s.1 ∧ 0 ≤ s.2) :
      0 ≤ (l.foldl (fun s agent => (s.1 + m.latency agent j, s.2 + m.latency j agent)) s).1 ∧
      0 ≤ (l.foldl (fun s agent => (s.1 + m.latency agent j, s.2 + m.latency j agent)) s).2 := by
    induction l generalizing s with
    | nil => exact start
    | cons agent rest ih =>
      exact ih _ ⟨add_nonneg start.1 (latencies _ _), add_nonneg start.2 (latencies _ _)⟩
  have zero : (0 : ℚ) ≤ ((0 : Int) : ℚ) := by simp
  have total := sums data.live (((0 : Int) : ℚ), ((0 : Int) : ℚ)) ⟨zero, zero⟩
  unfold averageLatency
  simp only
  split
  · exact ⟨div_nonneg total.1 (by positivity), div_nonneg total.2 (by positivity)⟩
  · simp only [initialTransmissionLatency]; norm_num

theorem computeNextH_nonneg {p : Platform} {params : Params ℚ} {m : Matrices ℚ} {s : Placement}
    (rates : ∀ i j, 0 ≤ m.rate i j) (latencies : ∀ i j, 0 ≤ m.latency i j)
    (same : 0 ≤ params.vmDownTimeServiceSameCluster)
    (other : 0 ≤ params.vmDownTimeServiceOtherCluster) (candidate i : Nat) :
    0 ≤ computeNextH p params m s candidate i := by
  have rate (a b : Nat) : (0 : ℚ) ≤ (m.rate a b : ℚ) := by exact_mod_cast rates a b
  refine add_nonneg (foldl_nonneg (fun x j start => ?_) _ (by simp)) ?_
  · have averages := averageLatency_nonneg latencies (s.dataOfPMs i) j
    have := mul_nonneg (rate candidate j) averages.1
    have := mul_nonneg (rate j candidate) averages.2
    linarith
  · unfold downTime
    split <;> assumption

/-- The order the sort produces: by `nextH`, and by index where that is equal. -/
theorem sortetIndexNextH_sorted {n : Nat} (small : n ≤ 2 ^ 24) (nextH : Nat → ℚ) :
    (sortetIndexNextH n nextH).Pairwise
      fun a b => nextH a ≤ nextH b ∧ (nextH a = nextH b → a < b) := by
  rw [sortetIndexNextH_eq small]
  refine (BubbleSort.sort_sorted nextH n (List.range n) (by simp)).and
    (BubbleSort.sort_stable nextH (· < ·) n (List.range n) ?_)
  apply List.pairwise_lt_range.imp
  intro a b lt _
  exact lt

/-- The first entry of a sorted list that passes a test comes before all that pass it. -/
theorem find_first {α : Type} {order : α → α → Prop} {l : List α} {good : α → Bool} {t : α}
    (sorted : l.Pairwise order) (found : l.find? good = some t) :
    t ∈ l ∧ good t = true ∧ ∀ x ∈ l, x = t ∨ good x = false ∨ order t x := by
  obtain ⟨passes, before, after, rfl, fails⟩ := List.find?_eq_some_iff_append.mp found
  refine ⟨by simp, passes, fun x member => ?_⟩
  obtain ⟨_, tail, _⟩ := List.pairwise_append.mp sorted
  rcases List.mem_append.mp member with early | late
  · exact .inr (.inl (by simpa using fails x early))
  · rcases List.mem_cons.mp late with same | late
    · exact .inl same
    · exact .inr (.inr ((List.pairwise_cons.mp tail).1 x late))

/-- A PM that can take one more VM. -/
def HasRoom (p : Platform) (s : Placement) (i : Nat) : Prop :=
  i < p.numberOfInvolvedHost ∧ (s.dataOfPMs i).numberOfVMs < pmCapacity

/-- The scan for the target: the cheapest PM with room, the lowest index on a tie,
or nothing when no PM with room is good enough. -/
theorem chooseTarget_spec {p : Platform} (small : p.numberOfInvolvedHost ≤ 2 ^ 24) (s : Placement)
    (currentH : ℚ) (nextH : Nat → ℚ) :
    (chooseTarget p s currentH nextH (sortetIndexNextH p.numberOfInvolvedHost nextH) = some none ∧
      ∀ i, HasRoom p s i → currentH - nextH i ≤ 11 / 2) ∨
    ∃ t, chooseTarget p s currentH nextH (sortetIndexNextH p.numberOfInvolvedHost nextH) =
        some (some t) ∧
      HasRoom p s t ∧ 11 / 2 < currentH - nextH t ∧
      ∀ i, HasRoom p s i → nextH t ≤ nextH i ∧ (nextH i = nextH t → t ≤ i) := by
  have member (i : Nat) : i ∈ sortetIndexNextH p.numberOfInvolvedHost nextH ↔
      i < p.numberOfInvolvedHost := by
    rw [(sortetIndexNextH_perm small nextH).mem_iff,List.mem_range]
  rw [chooseTarget_find _ _ _ _ _ fun i hi => (member i).mp hi]
  cases found : (sortetIndexNextH p.numberOfInvolvedHost nextH).find? fun i =>
      decide ((s.dataOfPMs i).numberOfVMs < pmCapacity ∧
        ((11 : Int) : ℚ) / ((2 : Int) : ℚ) < currentH - nextH i) with
  | none =>
    left
    refine ⟨rfl, fun i room => ?_⟩
    have fails := List.find?_eq_none.mp found i ((member i).mpr room.1)
    simpa [room.2] using fails
  | some t =>
    right
    obtain ⟨inside, passes, before⟩ := find_first (sortetIndexNextH_sorted small nextH) found
    have good : (s.dataOfPMs t).numberOfVMs < pmCapacity ∧ 11 / 2 < currentH - nextH t := by
      simpa using passes
    refine ⟨t, rfl, ⟨(member t).mp inside, good.1⟩, good.2, fun i room => ?_⟩
    rcases before i ((member i).mpr room.1) with rfl | fails | ⟨le, tie⟩
    · exact ⟨le_rfl, fun _ => Nat.le_refl _⟩
    · -- `i` has room, so it is the threshold that it fails: it costs more than `t`.
      have dear : currentH - nextH i ≤ 11 / 2 := by simpa [room.2] using fails
      have : nextH t < nextH i := by linarith [good.2]
      exact ⟨this.le, fun same => absurd same this.ne'⟩
    · exact ⟨le, fun same => (tie same.symm).le⟩

/-- What is chosen gains enough. -/
theorem chooseTarget_gain {p : Platform} {s : Placement} {currentH : ℚ} {nextH : Nat → ℚ}
    {l : List Nat} {t : Nat} (chosen : chooseTarget p s currentH nextH l = some (some t)) :
    11 / 2 < currentH - nextH t := by
  induction l with
  | nil => simp [chooseTarget] at chosen
  | cons i rest ih =>
    obtain ⟨data, _, chosen⟩ := Option.bind_eq_some_iff.mp chosen
    split at chosen
    next good =>
      cases chosen
      simpa using good.2
    next => exact ih chosen

/-- A call is for the candidate, and its target is what the scan chose. -/
theorem decision_call {p : Platform} {params : Params ℚ} {m : Matrices ℚ} {s : Placement} {last : Int}
    {vm target : Nat} (decided : decision p params m s last = some (some (vm, target))) :
    ∃ currentH, findCandidate params.numberOfVMs (computeH params.numberOfVMs m) last = (currentH, vm) ∧
      chooseTarget p s currentH (computeNextH p params m s vm)
        (sortetIndexNextH p.numberOfInvolvedHost (computeNextH p params m s vm)) = some (some target) := by
  unfold decision at decided
  generalize found : findCandidate params.numberOfVMs (computeH params.numberOfVMs m) last = best at *
  obtain ⟨currentH, candidate⟩ := best
  obtain ⟨choice, chosen, shape⟩ := Option.map_eq_some_iff.mp decided
  obtain ⟨t, rfl, is⟩ := Option.map_eq_some_iff.mp shape
  cases is
  exact ⟨currentH, rfl, chosen⟩

/-- No entry of the matrices is negative. -/
structure NonNeg (m : Matrices ℚ) : Prop where
  rate : ∀ i j, 0 ≤ m.rate i j
  latency : ∀ i j, 0 ≤ m.latency i j

/-- A call is for the busiest VM other than the last candidate: the start of the scan, VM 0
with no traffic, gains nothing anywhere. -/
theorem decision_busiest {p : Platform} {params : Params ℚ} {m : Matrices ℚ} {s : Placement} {last : Int}
    {vm target : Nat} (entries : NonNeg m) (same : 0 ≤ params.vmDownTimeServiceSameCluster)
    (other : 0 ≤ params.vmDownTimeServiceOtherCluster)
    (decided : decision p params m s last = some (some (vm, target))) :
    FirstMax params.numberOfVMs (computeH params.numberOfVMs m) last vm ∧
      chooseTarget p s (computeH params.numberOfVMs m vm) (computeNextH p params m s vm)
        (sortetIndexNextH p.numberOfInvolvedHost (computeNextH p params m s vm)) = some (some target) := by
  obtain ⟨currentH, candidate, chosen⟩ := decision_call decided
  rcases findCandidate_spec params.numberOfVMs (computeH params.numberOfVMs m) last with
    ⟨start, _⟩ | ⟨c, found, first, _⟩
  · cases start.symm.trans candidate
    have gain := chooseTarget_gain chosen
    have cost := computeNextH_nonneg (p := p) (s := s) entries.rate entries.latency same other 0 target
    linarith
  · cases found.symm.trans candidate
    exact ⟨first, chosen⟩

/-- What a round does to the VMs. -/
def moved (s : State ℚ) : Placement × Nat := (s.placement, s.migrateCounter)

theorem round_idle {p : Platform} {params : Params ℚ} {st : State ℚ}
    (idle : decision p params (smooth params st.tmp st.transmission) st.placement
      st.lastCandidateVMIndex = some none) :
    (organizationRound p params st).map moved = some (st.placement, st.migrateCounter) := by
  simp only [organizationRound,idle,Option.bind_some,Option.map_some,moved]

theorem round_moves {p : Platform} {params : Params ℚ} {st : State ℚ} (vm t : Nat)
    (decided : decision p params (smooth params st.tmp st.transmission) st.placement
      st.lastCandidateVMIndex = some (some (vm, t))) :
    (organizationRound p params st).map moved =
      (migrateVm p st.placement vm t t).map fun placement => (placement, st.migrateCounter + 1) := by
  have inside : t < p.numberOfInvolvedHost := by
    obtain ⟨choice, chosen, shape⟩ := Option.map_eq_some_iff.mp decided
    obtain ⟨u, rfl, equal⟩ := Option.map_eq_some_iff.mp shape
    cases equal
    exact (chooseTarget_free chosen).1
  have host : t < p.hosts.length := by unfold Platform.numberOfInvolvedHost at inside; omega
  simp only [organizationRound,decided,Option.bind_some,List.getElem?_eq_getElem host,
    Option.map_map]
  rfl

/-- The smoothed matrices that a round computes with. -/
def State.smoothed (params : Params ℚ) (st : State ℚ) : Matrices ℚ := smooth params st.tmp st.transmission

/-- The candidate `c` has traffic, and is the first with the most among the VMs other than the last one. -/
def Candidate (params : Params ℚ) (st : State ℚ) (c : Nat) : Prop :=
  FirstMax params.numberOfVMs (computeH params.numberOfVMs (st.smoothed params)) st.lastCandidateVMIndex c ∧
    0 < computeH params.numberOfVMs (st.smoothed params) c

/-- The cost of a candidate on each PM. -/
def roundNextH (p : Platform) (params : Params ℚ) (st : State ℚ) (c : Nat) : Nat → ℚ :=
  computeNextH p params (st.smoothed params) st.placement c

/-- A PM with room saves the candidate enough. -/
def SomeQualifies (p : Platform) (params : Params ℚ) (st : State ℚ) (c : Nat) : Prop :=
  ∃ i, HasRoom p st.placement i ∧
    11 / 2 < computeH params.numberOfVMs (st.smoothed params) c - roundNextH p params st c i

/-- The cheapest PM with room, of several the one with the lowest index. -/
structure CheapestPM (p : Platform) (s : Placement) (nextH : Nat → ℚ) (t : Nat) : Prop where
  room : HasRoom p s t
  least : ∀ i, HasRoom p s i → nextH t ≤ nextH i ∧ (nextH i = nextH t → t ≤ i)

/-- A round that moves nothing. -/
def Stays (p : Platform) (params : Params ℚ) (st : State ℚ) : Prop :=
  (organizationRound p params st).map moved = some (st.placement, st.migrateCounter)

/-- A round that moves one VM, once. -/
structure Moves (p : Platform) (params : Params ℚ) (st : State ℚ) (vm t : Nat) (next : State ℚ) : Prop where
  round : organizationRound p params st = some next
  migrated : migrateVm p st.placement vm t t = some next.placement
  pm : next.placement.pm = Function.update st.placement.pm vm t
  counter : next.migrateCounter = st.migrateCounter + 1

/-- What a round is to decide and to do. -/
structure RoundDecides (p : Platform) (params : Params ℚ) (st : State ℚ) : Prop where
  idle : (¬ ∃ i < params.numberOfVMs, (i : Int) ≠ st.lastCandidateVMIndex ∧
    0 < computeH params.numberOfVMs (st.smoothed params) i) → Stays p params st
  stays : ∀ c, Candidate params st c → ¬ SomeQualifies p params st c → Stays p params st
  moves : ∀ c, Candidate params st c → SomeQualifies p params st c →
    ∃ t next, CheapestPM p st.placement (roundNextH p params st c) t ∧ Moves p params st c t next
  sorted : ∀ c, (sortetIndexNextH p.numberOfInvolvedHost (roundNextH p params st c)).Perm
      (List.range p.numberOfInvolvedHost) ∧
    (sortetIndexNextH p.numberOfInvolvedHost (roundNextH p params st c)).Pairwise
      fun a b => roundNextH p params st c a ≤ roundNextH p params st c b

/-- Up to the entry of the PM that the VM is on, every entry has a name: each of these PMs has had a VM. -/
def NamedUpTo (p : Platform) (s : Placement) (vm : Nat) : Prop :=
  ∀ i < p.numberOfInvolvedHost, (∀ j < i, (s.dataOfPMs j).pmName ≠ p.hosts[s.pm vm]?) →
    (s.dataOfPMs i).pmName ≠ none

/-- The search compares with the entries up to the first of that name. -/
theorem findPM_some_iff (s : Placement) (name : String) {l : List Nat} (sorted : l.Pairwise (· < ·)) :
    (∃ home, findPM s name l = some home) ↔
      ∀ i ∈ l, (∀ j ∈ l, j < i → (s.dataOfPMs j).pmName ≠ some name) → (s.dataOfPMs i).pmName ≠ none := by
  induction l with
  | nil => simp [findPM]
  | cons k rest ih =>
    obtain ⟨below, sorted⟩ := List.pairwise_cons.mp sorted
    cases named : (s.dataOfPMs k).pmName with
    | none =>
      refine iff_of_false (by simp [findPM,named]) fun all => ?_
      refine all k List.mem_cons_self (fun j member less => ?_) named
      rcases List.mem_cons.mp member with rfl | later
      · exact absurd less (Nat.lt_irrefl j)
      · exact absurd (below j later) (Nat.lt_asymm less)
    | some first =>
      by_cases same : first = name
      · refine iff_of_true ⟨some k, by simp [findPM,named,same]⟩ fun i member others => ?_
        rcases List.mem_cons.mp member with rfl | later
        · simp [named]
        · exact absurd (same ▸ named) (others k List.mem_cons_self (below i later))
      · have goes_on : findPM s name (k :: rest) = findPM s name rest := by simp [findPM,named,same]
        rw [goes_on,ih sorted]
        constructor
        · intro all i member others
          rcases List.mem_cons.mp member with rfl | later
          · simp [named]
          · exact all i later fun j inside => others j (List.mem_cons_of_mem _ inside)
        · intro all i later others
          refine all i (List.mem_cons_of_mem _ later) fun j member less => ?_
          rcases List.mem_cons.mp member with rfl | inside
          · simp [named,same]
          · exact others j inside less

/-- A VM is moved, unless the search for its PM comes upon an entry without a name. -/
theorem migrateVm_some_iff {p : Platform} {s : Placement} {vm t : Nat} (host : s.pm vm < p.hosts.length)
    (inside : t < p.numberOfInvolvedHost) :
    (∃ next, migrateVm p s vm t t = some next) ↔ NamedUpTo p s vm := by
  have name : p.hosts[s.pm vm]? = some p.hosts[s.pm vm] := List.getElem?_eq_getElem host
  have searched : (∃ next, migrateVm p s vm t t = some next) ↔
      ∃ home, findPM s p.hosts[s.pm vm] (List.range p.numberOfInvolvedHost) = some home := by
    simp only [migrateVm,name,Option.bind_some,getData,if_pos inside,Option.map_some]
    constructor
    · rintro ⟨_, is⟩
      obtain ⟨home, found, _⟩ := Option.bind_eq_some_iff.mp is
      exact ⟨home, found⟩
    · rintro ⟨home, found⟩
      exact ⟨_, by rw [found,Option.bind_some]⟩
  rw [searched,findPM_some_iff s _ List.pairwise_lt_range,NamedUpTo,name]
  simp only [List.mem_range]
  constructor
  · exact fun all i bound others => all i bound fun j _ less => others j less
  · exact fun all i bound others => all i bound fun j less => others j (less.trans bound) less

section Round
variable {p : Platform} {params : Params ℚ} {st : State ℚ} (small : p.numberOfInvolvedHost ≤ 2 ^ 24)
include small

/-- What is decided about the candidate. -/
theorem candidate_decision {c : Nat} (candidate : Candidate params st c) :
    (decision p params (st.smoothed params) st.placement st.lastCandidateVMIndex = some none ∧
      ¬ SomeQualifies p params st c) ∨
    ∃ t, decision p params (st.smoothed params) st.placement st.lastCandidateVMIndex = some (some (c, t)) ∧
      CheapestPM p st.placement (roundNextH p params st c) t ∧ SomeQualifies p params st c := by
  obtain ⟨first, positive⟩ := candidate
  have found : findCandidate params.numberOfVMs (computeH params.numberOfVMs (st.smoothed params))
      st.lastCandidateVMIndex = (computeH params.numberOfVMs (st.smoothed params) c, c) := by
    rcases findCandidate_spec params.numberOfVMs (computeH params.numberOfVMs (st.smoothed params))
      st.lastCandidateVMIndex with ⟨_, none⟩ | ⟨d, found, other, _⟩
    · exact absurd (none c first.bound first.other) (not_le.mpr positive)
    · rw [first.unique other]
      exact found
  unfold decision
  rw [found]
  rcases chooseTarget_spec small st.placement (computeH params.numberOfVMs (st.smoothed params) c)
    (roundNextH p params st c) with ⟨nothing, dear⟩ | ⟨t, chosen, room, saves, least⟩
  · refine .inl ⟨?_, fun ⟨i, room, saves⟩ => absurd saves (not_lt.mpr (dear i room))⟩
    simp only [roundNextH] at nothing
    simp [nothing]
  · refine .inr ⟨t, ?_, ⟨room, least⟩, t, room, saves⟩
    simp only [roundNextH] at chosen
    simp [chosen]

/-- Without traffic the scan keeps its start, VM 0, which gains nothing anywhere. -/
theorem idle_decision (entries : NonNeg (st.smoothed params))
    (same : 0 ≤ params.vmDownTimeServiceSameCluster) (other : 0 ≤ params.vmDownTimeServiceOtherCluster)
    (idle : ¬ ∃ i < params.numberOfVMs, (i : Int) ≠ st.lastCandidateVMIndex ∧
      0 < computeH params.numberOfVMs (st.smoothed params) i) :
    decision p params (st.smoothed params) st.placement st.lastCandidateVMIndex = some none := by
  have start : findCandidate params.numberOfVMs (computeH params.numberOfVMs (st.smoothed params))
      st.lastCandidateVMIndex = (0, 0) := by
    rcases findCandidate_spec params.numberOfVMs (computeH params.numberOfVMs (st.smoothed params))
      st.lastCandidateVMIndex with ⟨start, _⟩ | ⟨c, _, first, positive⟩
    · exact start
    · exact absurd ⟨c, first.bound, first.other, positive⟩ idle
  have costs := computeNextH_nonneg (p := p) (s := st.placement) entries.rate entries.latency same other 0
  unfold decision
  rw [start]
  rcases chooseTarget_spec small st.placement 0 (computeNextH p params (st.smoothed params) st.placement 0) with
    ⟨nothing, _⟩ | ⟨t, _, _, saves, _⟩
  · simp [nothing]
  · linarith [costs t]

end Round

/-- The round decides and does what it is to, exactly if its search for the PM of a candidate that is to be
moved comes upon no PM that has never had a VM. -/
theorem round_decides_iff (p : Platform) (params : Params ℚ) (st : State ℚ)
    (small : p.numberOfInvolvedHost ≤ 2 ^ 24) (entries : NonNeg (st.smoothed params))
    (same : 0 ≤ params.vmDownTimeServiceSameCluster) (other : 0 ≤ params.vmDownTimeServiceOtherCluster)
    (hosts : ∀ v < params.numberOfVMs, st.placement.pm v < p.hosts.length) :
    RoundDecides p params st ↔
      ∀ c, Candidate params st c → SomeQualifies p params st c → NamedUpTo p st.placement c := by
  constructor
  · intro decides c candidate qualifies
    obtain ⟨t, next, cheapest, moves⟩ := decides.moves c candidate qualifies
    exact (migrateVm_some_iff (hosts c candidate.1.bound) cheapest.room.1).mp ⟨_, moves.migrated⟩
  · intro named
    refine ⟨fun idle => ?_, fun c candidate none => ?_, fun c candidate qualifies => ?_, fun c => ?_⟩
    · exact round_idle (idle_decision small entries same other idle)
    · rcases candidate_decision small candidate with ⟨nothing, _⟩ | ⟨_, _, _, qualifies⟩
      · exact round_idle nothing
      · exact absurd qualifies none
    · rcases candidate_decision small candidate with ⟨_, none⟩ | ⟨t, decided, cheapest, _⟩
      · exact absurd qualifies none
      · obtain ⟨placement, migrated⟩ := (migrateVm_some_iff (hosts c candidate.1.bound) cheapest.room.1).mpr
          (named c candidate qualifies)
        have did := round_moves c t decided
        rw [migrated,Option.map_some] at did
        obtain ⟨next, round, is⟩ := Option.map_eq_some_iff.mp did
        obtain ⟨rfl, counter⟩ := Prod.mk.inj is
        exact ⟨t, next, cheapest, round, migrated, migrateVm_pm migrated, counter⟩
    · exact ⟨sortetIndexNextH_perm small _, (sortetIndexNextH_sorted small _).imp fun both => both.1⟩

/-- Three VMs on the first two of three PMs, with nine messages between any two of them. -/
def threeBusyVMs : State ℚ where
  placement := ⟨fun i => ⟨["c-0.me", "c-1.me", "c-2.me"][i]?, 2 - i, fun k => 2 * i + k⟩, fun v => v / 2⟩
  transmission := ⟨fun _ _ => 9, fun _ _ => 3⟩
  tmp := initialMatrices
  lastCandidateVMIndex := -1
  migrateCounter := 0

theorem smoothed_nonneg {params : Params ℚ} {st : State ℚ} (zero : params.alpha = 0)
    (initial : st.tmp = initialMatrices) (raw : NonNeg st.transmission) : NonNeg (st.smoothed params) := by
  constructor <;> intro i j <;> simp only [State.smoothed,smooth,overPairs,zero,initial] <;> split
  · have := raw.rate i j
    simpa [Truncate.toInt] using this
  · exact (by decide : (0 : Int) ≤ 1)
  · simpa using raw.latency i j
  · norm_num [initialMatrices,initialTransmissionLatency]

theorem round_decides_three : RoundDecides ⟨["c-0.me", "c-1.me", "c-2.me", "c-3.me"]⟩ ⟨3, 0, 17, 20⟩ threeBusyVMs := by
  refine (round_decides_iff ⟨["c-0.me", "c-1.me", "c-2.me", "c-3.me"]⟩ ⟨3, 0, 17, 20⟩ threeBusyVMs (by decide)
    (smoothed_nonneg rfl rfl ⟨fun _ _ => (by decide : (0 : Int) ≤ 9), fun _ _ => (by norm_num : (0 : ℚ) ≤ 3)⟩)
    (by norm_num) (by norm_num) (by decide)).mpr fun c _ _ i bound _ => ?_
  have three : i = 0 ∨ i = 1 ∨ i = 2 := by
    simp only [Platform.numberOfInvolvedHost] at bound
    simp at bound
    omega
  rcases three with rfl | rfl | rfl <;> decide

/-- Two VMs, as they are launched on three PMs, with nine messages each way between them. -/
def twoLaunchedVMs : State ℚ where
  placement := (launchMaster ⟨["c-0.me", "c-1.me", "c-2.me", "c-3.me"]⟩ 2 0).getD ⟨fun _ => .zero, fun _ => 0⟩
  transmission := ⟨fun _ _ => 9, fun _ _ => 3⟩
  tmp := initialMatrices
  lastCandidateVMIndex := -1
  migrateCounter := 0

/-- The first of the PMs has never had a VM, so it has no name to compare with. -/
theorem round_undecided :
    launchMaster ⟨["c-0.me", "c-1.me", "c-2.me", "c-3.me"]⟩ 2 0 = some twoLaunchedVMs.placement ∧
      organizationRound ⟨["c-0.me", "c-1.me", "c-2.me", "c-3.me"]⟩ ⟨2, 0, 17, 20⟩ twoLaunchedVMs = none ∧
      ¬ RoundDecides ⟨["c-0.me", "c-1.me", "c-2.me", "c-3.me"]⟩ ⟨2, 0, 17, 20⟩ twoLaunchedVMs := by
  have crashes :
      organizationRound ⟨["c-0.me", "c-1.me", "c-2.me", "c-3.me"]⟩ ⟨2, 0, 17, 20⟩ twoLaunchedVMs = none :=
    Option.isNone_iff_eq_none.mp (by decide +kernel)
  have busy : findCandidate 2 (computeH 2 (twoLaunchedVMs.smoothed ⟨2, 0, 17, 20⟩)) (-1) = (108, 0) := by
    decide +kernel
  refine ⟨rfl, crashes, fun decides => ?_⟩
  rcases findCandidate_spec 2 (computeH 2 (twoLaunchedVMs.smoothed ⟨2, 0, 17, 20⟩)) (-1) with
    ⟨start, _⟩ | ⟨c, found, first, positive⟩
  · cases start.symm.trans busy
  · obtain rfl : c = 0 := congrArg Prod.snd (found.symm.trans busy)
    have saves : 11 / 2 < computeH 2 (twoLaunchedVMs.smoothed ⟨2, 0, 17, 20⟩) 0 -
        roundNextH ⟨["c-0.me", "c-1.me", "c-2.me", "c-3.me"]⟩ ⟨2, 0, 17, 20⟩ twoLaunchedVMs 0 0 := by
      decide +kernel
    obtain ⟨_, _, _, moves⟩ := decides.moves 0 ⟨first, positive⟩ ⟨0, ⟨by decide, by decide⟩, saves⟩
    cases crashes.symm.trans moves.round

end Hpvc.Organizer
