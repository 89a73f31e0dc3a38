import Hpvc.Library.BubbleSort
import Hpvc.Library.Decimal
import Hpvc.Library.Pick
import Hpvc.OrganizerPlacement
import Mathlib.Data.Rat.Floor

/-! One round of `organization_manager`: smooth the traffic matrices, choose the VM
with the most traffic and the PM where it would cost least, and migrate it there.
The arithmetic is a parameter: nothing is assumed of it here, so the round also
stands for one computed with rounding, overflow and invalid operations. -/
namespace Hpvc.Organizer

/-- Conversion of a floating value to `int`. -/
class Truncate (R : Type) where
  toInt : R → Int

instance : Truncate ℚ := ⟨fun q => q.num.tdiv q.den⟩

/-- Truncation of what is not negative rounds down. -/
theorem toInt_of_nonneg {q : ℚ} (nonneg : 0 ≤ q) : Truncate.toInt q = ⌊q⌋ := by
  have numerator : 0 ≤ q.num := Rat.num_nonneg.mpr nonneg
  change q.num.tdiv q.den = ⌊q⌋
  rw [Rat.floor_def',Int.tdiv_eq_ediv_of_nonneg numerator]

variable {R : Type} [Add R] [Sub R] [Mul R] [Div R] [IntCast R] [LT R] [DecidableLT R] [Truncate R]

/-- `transmissionRate` and `transmissionLatency`, or their smoothed copies. -/
structure Matrices (R : Type) where
  rate : Nat → Nat → Int
  latency : Nat → Nat → R

structure Params (R : Type) where
  numberOfVMs : Nat
  alpha : R
  vmDownTimeServiceSameCluster : R
  vmDownTimeServiceOtherCluster : R

def initialTransmissionRate : Int := 1

/-- `0.006f` -/
def initialTransmissionLatency : R := ((6 : Int) : R) / ((1000 : Int) : R)

def initialMatrices : Matrices R where
  rate _ _ := initialTransmissionRate
  latency _ _ := initialTransmissionLatency

/-- What the organizer shares with the other processes, and its own variables. -/
structure State (R : Type) where
  placement : Placement
  transmission : Matrices R
  tmp : Matrices R
  lastCandidateVMIndex : Int
  migrateCounter : Nat

/-- A loop over all pairs of VMs writes only the entries of the matrix. -/
def overPairs (n : Nat) (new old : Nat → Nat → α) (i j : Nat) : α :=
  if i < n ∧ j < n then new i j else old i j

/-- The smoothed matrices; the rate is truncated when it is assigned. -/
def smooth (params : Params R) (tmp raw : Matrices R) : Matrices R where
  rate := overPairs params.numberOfVMs (fun i j => Truncate.toInt
    (params.alpha * (tmp.rate i j : R) + (((1 : Int) : R) - params.alpha) * (raw.rate i j : R))) tmp.rate
  latency := overPairs params.numberOfVMs (fun i j =>
    params.alpha * tmp.latency i j + (((1 : Int) : R) - params.alpha) * raw.latency i j) tmp.latency

/-- Clear the shared matrices for the next period. -/
def clear (n : Nat) (raw : Matrices R) : Matrices R where
  rate := overPairs n (initialMatrices : Matrices R).rate raw.rate
  latency := overPairs n initialMatrices.latency raw.latency

/-- `H[i]`: the traffic of a VM with all others, in both directions. -/
def computeH (n : Nat) (m : Matrices R) (i : Nat) : R :=
  (List.range n).foldl
    (fun h j => h + (m.rate i j : R) * m.latency i j + (m.rate j i : R) * m.latency j i) ((0 : Int) : R)

/-- `currentH` and `candidateVM_index`: the first largest positive entry of `H` but the
last candidate's, and VM 0 with no traffic where there is none. -/
def findCandidate (n : Nat) (h : Nat → R) (lastCandidateVMIndex : Int) : R × Nat :=
  Pick.pick Pick.more (fun i : Nat => (i : Int) != lastCandidateVMIndex) h id (List.range n) (((0 : Int) : R), 0)

/-- Average latency from the VMs of a PM to VM `j`, and back. -/
def averageLatency (m : Matrices R) (data : DataOfPM) (j : Nat) : R × R :=
  let sums := data.live.foldl
    (fun s agent => (s.1 + m.latency agent j, s.2 + m.latency j agent)) (((0 : Int) : R), ((0 : Int) : R))
  if 0 < data.numberOfVMs then
    (sums.1 / ((data.numberOfVMs : Int) : R), sums.2 / ((data.numberOfVMs : Int) : R))
  else (initialTransmissionLatency, initialTransmissionLatency)

/-- The traffic the candidate would have if it ran on a PM. -/
def communicationCost (n : Nat) (m : Matrices R) (data : DataOfPM) (candidate : Nat) : R :=
  (List.range n).foldl
    (fun cost j => cost + (m.rate candidate j : R) * (averageLatency m data j).1 +
      (m.rate j candidate : R) * (averageLatency m data j).2) ((0 : Int) : R)

/-- `sscanf(name, "c-%d.me", ..)` assigns before it looks at the suffix. -/
def scanHostNumber : List Char → Option Int
  | 'c' :: '-' :: rest => (Decimal.scanInt rest).map Prod.fst
  | _ => none

def homPMIndex (p : Platform) (s : Placement) (candidate : Nat) : Int :=
  (p.hosts[s.pm candidate]?.bind fun name => scanHostNumber name.toList).getD (-1)

def downTime (params : Params R) (hom : Int) (i : Nat) : R :=
  if (hom < 10 ∧ i < 10) ∨ (10 < hom ∧ 10 < i) then params.vmDownTimeServiceSameCluster
  else params.vmDownTimeServiceOtherCluster

/-- `nextH[i]` for the candidate. -/
def computeNextH (p : Platform) (params : Params R) (m : Matrices R) (s : Placement)
    (candidate i : Nat) : R :=
  communicationCost params.numberOfVMs m (s.dataOfPMs i) candidate +
    downTime params (homPMIndex p s candidate) i

/-- An index assigned to the `float swap` and back: 24 significant bits, ties to even. -/
def viaFloat (k : Nat) : Nat :=
  let ulp := 2 ^ (k.log2 - 23)
  let low := k / ulp * ulp
  if 2 * (k % ulp) < ulp ∨ (2 * (k % ulp) = ulp ∧ k / ulp % 2 = 0) then low else low + ulp

def sortetIndexNextH (n : Nat) (nextH : Nat → R) : List Nat :=
  BubbleSort.sort (BubbleSort.larger nextH) viaFloat n (List.range n)

/-- The scan for the target: the first PM with room that is good enough, then `break`.
`none` is the abort of an access past the end of `dataOfPMs`. -/
def chooseTarget (p : Platform) (s : Placement) (currentH : R) (nextH : Nat → R) :
    List Nat → Option (Option Nat)
  | [] => some none
  | i :: rest => (getData p s i).bind fun data =>
      if data.numberOfVMs < pmCapacity ∧ ((11 : Int) : R) / ((2 : Int) : R) < currentH - nextH i then
        some (some i)
      else chooseTarget p s currentH nextH rest

/-- The arguments of the one `migrate_vm` call a round can make: VM and target PM. -/
def decision (p : Platform) (params : Params R) (m : Matrices R) (s : Placement)
    (lastCandidateVMIndex : Int) : Option (Option (Nat × Nat)) :=
  let (currentH, candidate) := findCandidate params.numberOfVMs
    (computeH params.numberOfVMs m) lastCandidateVMIndex
  let nextH := computeNextH p params m s candidate
  (chooseTarget p s currentH nextH (sortetIndexNextH p.numberOfInvolvedHost nextH)).map
    fun target => target.map fun t => (candidate, t)

/-- The body of the loop of `organization_manager`, from one sleep to the next. -/
def organizationRound (p : Platform) (params : Params R) (s : State R) : Option (State R) :=
  let tmp := smooth params s.tmp s.transmission
  let cleared := { s with tmp := tmp, transmission := clear params.numberOfVMs s.transmission }
  (decision p params tmp s.placement s.lastCandidateVMIndex).bind fun
    | none => some cleared
    | some (vm, target) => p.hosts[target]?.bind fun _ =>
      (migrateVm p s.placement vm target target).map fun placement =>
        { cleared with
          placement := placement
          lastCandidateVMIndex := vm
          migrateCounter := s.migrateCounter + 1 }

/-- Indices up to 2^24 pass through a `float` unchanged. -/
theorem viaFloat_small {k : Nat} (small : k < 2 ^ 24) : viaFloat k = k := by
  have bits : k.log2 - 23 = 0 := by
    rcases Nat.eq_zero_or_pos k with rfl | positive
    · simp
    · have := (Nat.log2_lt (Nat.pos_iff_ne_zero.mp positive)).mpr small
      omega
  simp [viaFloat,bits,Nat.mod_one]

omit [Add R] [Sub R] [Mul R] [Div R] [IntCast R] [Truncate R] in
/-- With up to 2^24 PMs the `float` in the exchange has no effect on the sort. -/
theorem sortetIndexNextH_eq {n : Nat} (small : n ≤ 2 ^ 24) (nextH : Nat → R) :
    sortetIndexNextH n nextH = BubbleSort.sort (BubbleSort.larger nextH) id n (List.range n) :=
  BubbleSort.sort_carry _ _ _ _ fun _ member =>
    viaFloat_small (Nat.lt_of_lt_of_le (List.mem_range.mp member) small)

omit [Add R] [Sub R] [Mul R] [Div R] [IntCast R] [Truncate R] in
theorem sortetIndexNextH_perm {n : Nat} (small : n ≤ 2 ^ 24) (nextH : Nat → R) :
    (sortetIndexNextH n nextH).Perm (List.range n) := by
  rw [sortetIndexNextH_eq small]
  exact BubbleSort.sort_perm _ _ _

omit [Add R] [Mul R] [Truncate R] in
/-- Whatever is chosen has room. -/
theorem chooseTarget_free {p : Platform} {s : Placement} {currentH : R} {nextH : Nat → R}
    {l : List Nat} {t : Nat} (chosen : chooseTarget p s currentH nextH l = some (some t)) :
    t < p.numberOfInvolvedHost ∧ (s.dataOfPMs t).numberOfVMs < pmCapacity := by
  induction l with
  | nil => simp [chooseTarget] at chosen
  | cons i rest ih =>
    obtain ⟨data, got, chosen⟩ := Option.bind_eq_some_iff.mp chosen
    simp only [getData] at got
    split at got
    next inside =>
      cases got
      split at chosen
      next good => cases chosen; exact ⟨inside, good.1⟩
      next => exact ih chosen
    next => contradiction

omit [Add R] [Mul R] [Truncate R] in
/-- Over indices of PMs the scan returns, with the first PM that passes its test. -/
theorem chooseTarget_find (p : Platform) (s : Placement) (currentH : R) (nextH : Nat → R)
    (l : List Nat) (inside : ∀ i ∈ l, i < p.numberOfInvolvedHost) :
    chooseTarget p s currentH nextH l = some (l.find? fun i =>
      decide ((s.dataOfPMs i).numberOfVMs < pmCapacity ∧
        ((11 : Int) : R) / ((2 : Int) : R) < currentH - nextH i)) := by
  induction l with
  | nil => rfl
  | cons i rest ih =>
    have later := ih fun k hk => inside k (List.mem_cons_of_mem _ hk)
    simp only [chooseTarget,getData,inside i List.mem_cons_self,if_true,Option.bind_some,later,
      List.find?_cons]
    split
    next good => simp [good]
    next bad => rw [decide_eq_false bad]

omit [Add R] [Sub R] [Mul R] [Div R] [Truncate R] in
theorem findCandidate_lt {n : Nat} (positive : 0 < n) (h : Nat → R) (last : Int) :
    (findCandidate n h last).2 < n := by
  rcases Pick.pick_mem Pick.more (fun i : Nat => (i : Int) != last) h id (List.range n)
    (((0 : Int) : R), 0) with same | ⟨x, member, _, found⟩
  · unfold findCandidate; rw [same]; exact positive
  · unfold findCandidate; rw [found]; exact List.mem_range.mp member

/-- Everything a round can do: it clears the shared matrices in any case, and it may
migrate one VM to a PM that had room. -/
theorem round_cases {p : Platform} {params : Params R} {s next : State R}
    (h : organizationRound p params s = some next) :
    next.tmp = smooth params s.tmp s.transmission ∧
    next.transmission = clear params.numberOfVMs s.transmission ∧
    ((decision p params next.tmp s.placement s.lastCandidateVMIndex = some none ∧
        next.placement = s.placement ∧ next.lastCandidateVMIndex = s.lastCandidateVMIndex ∧
        next.migrateCounter = s.migrateCounter) ∨
      ∃ vm target, decision p params next.tmp s.placement s.lastCandidateVMIndex = some (some (vm, target)) ∧
        migrateVm p s.placement vm target target = some next.placement ∧
        next.lastCandidateVMIndex = vm ∧ next.migrateCounter = s.migrateCounter + 1) := by
  obtain ⟨choice, decided, acted⟩ := Option.bind_eq_some_iff.mp h
  cases choice with
  | none =>
    cases acted
    exact ⟨rfl, rfl, .inl ⟨decided, rfl, rfl, rfl⟩⟩
  | some call =>
    obtain ⟨vm, target⟩ := call
    obtain ⟨name, _, acted⟩ := Option.bind_eq_some_iff.mp acted
    obtain ⟨placement, moved, rfl⟩ := Option.map_eq_some_iff.mp acted
    exact ⟨rfl, rfl, .inr ⟨vm, target, decided, moved, rfl, rfl⟩⟩

omit [Truncate R] in
/-- A migration concerns one of the VMs, and its target had room. -/
theorem decision_free {p : Platform} {params : Params R} {m : Matrices R} {s : Placement}
    {last : Int} {vm target : Nat} (positive : 0 < params.numberOfVMs)
    (decided : decision p params m s last = some (some (vm, target))) :
    vm < params.numberOfVMs ∧ target < p.numberOfInvolvedHost ∧
      (s.dataOfPMs target).numberOfVMs < pmCapacity := by
  obtain ⟨choice, chosen, shape⟩ := Option.map_eq_some_iff.mp decided
  obtain ⟨t, rfl, equal⟩ := Option.map_eq_some_iff.mp shape
  cases equal
  exact ⟨findCandidate_lt positive _ _, chooseTarget_free chosen⟩

end Hpvc.Organizer
