import Hpvc.OrganizerHull

/-! A smoothed rate under steady traffic. Its distance to the raw rate shrinks in every round, but the
truncation rounds down: from above the rate arrives, from below the last step is never made. -/
namespace Hpvc.Organizer

/-- An entry of the smoothed rates after a round. -/
def nextRate (alpha : ℚ) (tmp raw : Int) : Int :=
  Truncate.toInt (alpha * (tmp : ℚ) + (((1 : Int) : ℚ) - alpha) * (raw : ℚ))

/-- The entry after `k` rounds that find the same raw rate. -/
def rateAfter (alpha : ℚ) (raw start : Int) : Nat → Int
  | 0 => start
  | k + 1 => nextRate alpha (rateAfter alpha raw start k) raw

def TrafficEvent.isRound : TrafficEvent ℚ → Bool
  | .round => true
  | .completion .. => false

def rounds (events : List (TrafficEvent ℚ)) : Nat := events.countP TrafficEvent.isRound

/-- In the period that a round ends, there were as many sends from `i` to `j` as make up this rate. -/
def Steady (i j : Nat) (raw : Int) (s : State ℚ) : TrafficEvent ℚ → Prop
  | .round => s.transmission.rate i j = raw
  | .completion .. => True

theorem smooth_rate {params : Params ℚ} {i j : Nat} (hi : i < params.numberOfVMs) (hj : j < params.numberOfVMs)
    (tmp raw : Matrices ℚ) :
    (smooth params tmp raw).rate i j = nextRate params.alpha (tmp.rate i j) (raw.rate i j) := by
  simp [smooth,overPairs,hi,hj,nextRate]

/-- A round adds to the raw rate what is left of the distance to it, rounded down. -/
theorem nextRate_eq {alpha : ℚ} (low : 0 ≤ alpha) (high : alpha ≤ 1) {tmp raw : Int} (old : 1 ≤ tmp)
    (new : 1 ≤ raw) : nextRate alpha tmp raw = raw + ⌊alpha * ((tmp - raw : Int) : ℚ)⌋ := by
  have old : (0 : ℚ) ≤ tmp := by exact_mod_cast Int.le_trans Int.one_nonneg old
  have new : (0 : ℚ) ≤ raw := by exact_mod_cast Int.le_trans Int.one_nonneg new
  have sum : alpha * (tmp : ℚ) + (((1 : Int) : ℚ) - alpha) * (raw : ℚ) =
      (raw : ℚ) + alpha * ((tmp - raw : Int) : ℚ) := by
    push_cast
    ring
  rw [nextRate,toInt_of_nonneg (weighted_nonneg low high old new),sum,Int.floor_intCast_add]

theorem rateAfter_pos {alpha : ℚ} (low : 0 ≤ alpha) (high : alpha ≤ 1) {raw start : Int} (old : 1 ≤ start)
    (new : 1 ≤ raw) (k : Nat) : 1 ≤ rateAfter alpha raw start k := by
  induction k with
  | zero => exact old
  | succ k ih =>
    have most := le_max_left (rateAfter alpha raw start k) raw
    exact (truncated_within low high ⟨ih, most⟩ ⟨new, le_max_right _ _⟩).1

section Approach
variable {alpha : ℚ} (low : 0 ≤ alpha) (high : alpha < 1) {raw start : Int} (old : 1 ≤ start) (new : 1 ≤ raw)
include low high old new

theorem rateAfter_succ (k : Nat) : rateAfter alpha raw start (k + 1) =
    raw + ⌊alpha * ((rateAfter alpha raw start k - raw : Int) : ℚ)⌋ :=
  nextRate_eq low high.le (rateAfter_pos low high.le old new k) new

/-- From above the rate comes nearer in every round until it is there. -/
theorem rateAfter_above (above : raw ≤ start) (k : Nat) :
    raw ≤ rateAfter alpha raw start k ∧ rateAfter alpha raw start k ≤ max raw (start - k) := by
  induction k with
  | zero => exact ⟨above, by simp [rateAfter]⟩
  | succ k ih =>
    obtain ⟨least, near⟩ := ih
    rw [rateAfter_succ low high old new]
    generalize hg : rateAfter alpha raw start k - raw = gap
    have nonneg : (0 : ℚ) ≤ gap := by exact_mod_cast (by omega : 0 ≤ gap)
    have left : 0 ≤ ⌊alpha * (gap : ℚ)⌋ := Int.floor_nonneg.mpr (mul_nonneg low nonneg)
    refine ⟨by omega, ?_⟩
    rcases Int.lt_or_le 0 gap with apart | there
    · have less : ⌊alpha * (gap : ℚ)⌋ < gap := by
        rw [Int.floor_lt]
        have positive : (0 : ℚ) < gap := by exact_mod_cast apart
        exact mul_lt_of_lt_one_left positive high
      push_cast
      omega
    · have zero : gap = 0 := by omega
      rw [zero]
      simp

/-- From below, with some weight on the past, it never arrives. -/
theorem rateAfter_below (positive : 0 < alpha) (below : start < raw) (k : Nat) :
    rateAfter alpha raw start k < raw := by
  induction k with
  | zero => exact below
  | succ k ih =>
    rw [rateAfter_succ low high old new]
    have gap : ((rateAfter alpha raw start k - raw : Int) : ℚ) < 0 := by exact_mod_cast (by omega)
    have step : ⌊alpha * ((rateAfter alpha raw start k - raw : Int) : ℚ)⌋ < 0 := by
      rw [Int.floor_lt]
      exact_mod_cast mul_neg_of_pos_of_neg positive gap
    omega

/-- The rate arrives and stays exactly if it starts from above, or the past has no weight. -/
theorem rateAfter_settles_iff :
    (∃ n, ∀ k, n ≤ k → rateAfter alpha raw start k = raw) ↔ alpha = 0 ∨ raw ≤ start := by
  constructor
  · intro ⟨n, settled⟩
    by_contra other
    obtain ⟨weight, below⟩ := not_or.mp other
    have positive : 0 < alpha := lt_of_le_of_ne low (Ne.symm weight)
    have short := rateAfter_below low high old new positive (by omega) n
    have there := settled n le_rfl
    omega
  · rintro (none | above)
    · refine ⟨1, fun k later => ?_⟩
      obtain ⟨k, rfl⟩ := Nat.exists_eq_add_of_le' later
      rw [rateAfter_succ low high old new,none,zero_mul,Int.floor_zero,add_zero]
    · refine ⟨(start - raw).toNat, fun k later => ?_⟩
      obtain ⟨least, near⟩ := rateAfter_above low high old new above k
      omega

end Approach

/-- Every round of a run with steady traffic is one such step. -/
theorem run_rateAfter {p : Platform} {params : Params ℚ} {i j : Nat} (hi : i < params.numberOfVMs)
    (hj : j < params.numberOfVMs) {raw : Int} {s final : State ℚ} {events : List (TrafficEvent ℚ)}
    (steady : Runs.Each (trafficStep p params) s events (Steady i j raw))
    (reached : Runs.run (trafficStep p params) s events = some final) :
    final.tmp.rate i j = rateAfter params.alpha raw (s.tmp.rate i j) (rounds events) := by
  refine Runs.run_history (fun past mid => Runs.Each (trafficStep p params) s past (Steady i j raw) →
    mid.tmp.rate i j = rateAfter params.alpha raw (s.tmp.rate i j) (rounds past)) (fun _ => rfl)
    (fun past mid event next before ih taken steady => ?_) reached steady
  obtain ⟨earlier, now⟩ := Runs.each_snoc.mp steady
  have kept := ih earlier
  rw [rounds,List.countP_append]
  cases event with
  | completion sender receiver startTime endTime ok =>
    rw [(completion_frame taken).1]
    exact kept
  | round =>
    have raw_rate : mid.transmission.rate i j = raw := now mid before
    rw [(round_cases taken).1,smooth_rate hi hj,kept,raw_rate]
    rfl

/-- Under steady traffic the smoothed rate follows the raw one exactly if it starts from above, or the
past has no weight. -/
theorem smoothed_rate_follows (p : Platform) (params : Params ℚ) (low : 0 ≤ params.alpha)
    (high : params.alpha < 1) {i j : Nat} (hi : i < params.numberOfVMs) (hj : j < params.numberOfVMs)
    {start raw : Int} (old : 1 ≤ start) (new : 1 ≤ raw) :
    (∀ (s final : State ℚ) (events : List (TrafficEvent ℚ)), s.tmp.rate i j = start →
      Runs.Each (trafficStep p params) s events (Steady i j raw) →
      Runs.run (trafficStep p params) s events = some final →
      final.tmp.rate i j = rateAfter params.alpha raw start (rounds events)) ∧
    ((∃ n, ∀ k, n ≤ k → rateAfter params.alpha raw start k = raw) ↔ params.alpha = 0 ∨ raw ≤ start) := by
  refine ⟨fun s final events begins steady reached => ?_, rateAfter_settles_iff low high old new⟩
  rw [← begins]
  exact run_rateAfter hi hj steady reached

/-- With a weight of 7 / 10 a rate of 11 comes down to 1 when there are no sends any more. -/
theorem smoothed_rate_follows_down : ∃ n, ∀ k, n ≤ k → rateAfter (7 / 10) 1 11 k = 1 :=
  (smoothed_rate_follows ⟨["c-0.me", "c-1.me", "c-2.me"]⟩ ⟨2, 7 / 10, 17, 20⟩ (by norm_num) (by norm_num)
    (show 0 < 2 by decide) (show 1 < 2 by decide) (by decide) (by decide)).2.mpr (.inr (by decide))

/-- With the weight of 1 / 10 that is the default, one send in every period never shows: 0.1 + 1.8 is
truncated to the initial rate of 1. -/
theorem smoothed_rate_stalls :
    (∀ k, rateAfter (1 / 10) 2 1 k = 1) ∧ ¬ ∃ n, ∀ k, n ≤ k → rateAfter (1 / 10) 2 1 k = 2 := by
  have stays (k : Nat) : rateAfter (1 / 10) 2 1 k = 1 := by
    induction k with
    | zero => rfl
    | succ k ih =>
      rw [rateAfter,ih]
      decide +kernel
  refine ⟨stays, fun ⟨n, settled⟩ => ?_⟩
  have there := settled n le_rfl
  rw [stays] at there
  contradiction

end Hpvc.Organizer
