import Hpvc.Library.Rounding
import Hpvc.MonitorServer
import Mathlib.Algebra.BigOperators.Intervals
import Mathlib.Data.List.DropRight
import Mathlib.Order.Interval.Finset.Nat
import Mathlib.Tactic.FieldSimp
import Mathlib.Tactic.Ring

/-! The report that a monitor builds from a query of the performance collector. The sum over the samples
of a metric starts from what the metrics before it have left. The printing of the loop is left out. -/
namespace Hpvc.Monitor

/-- An object as `QueryInterface` tells it, with its answers to the calls made of it. -/
inductive QueryObject where
  | machine (uuid : String)
  | host (interfaces : List String) (memorySize : Nat)
  | other

structure QueryMetric where
  name : String
  object : QueryObject
  index : Nat
  length : Nat

/-- A result of `QueryMetricsData`: the windows lie inside the data. -/
structure Query where
  data : List Int
  metrics : List QueryMetric
  inside : ∀ m ∈ metrics, m.index + m.length ≤ data.length

def Query.window (q : Query) (m : QueryMetric) : List Int := (q.data.drop m.index).take m.length

/-- A `double` in an `int`; out of range, x86 gives the least one. -/
def toInt32 (x : ℚ) : Int := if IsInt (x.num.tdiv x.den) then x.num.tdiv x.den else -2 ^ 31

/-- A `double` in a `float`. -/
def toFloat (x : ℚ) : ℚ := Rounding.single x

/-- `res` after the samples of a metric. -/
def resTurn (q : Query) (res : ℚ) (m : QueryMetric) : ℚ :=
  let res := (q.window m).foldl (fun (res : ℚ) (sample : Int) => res + sample) res
  if 0 < m.length then res / m.length else res

/-- `machine_metric__init` -/
def machineInit : MachineMetric := ⟨none, none, 0, 0, 0, 0⟩

/-- The assignments to the metrics of a guest. -/
def reportGuest (name : String) (res : ℚ) (metrics : MachineMetric) : MachineMetric :=
  let metrics :=
    if name = "Guest/RAM/Usage/Total:avg" then { metrics with ramUsageTotalAverage := toInt32 res }
    else if name = "Guest/CPU/Load/User:avg" then { metrics with cpuLoadUsage := toFloat res }
    else metrics
  { metrics with
    ip := some "127.0.0.1"
    cpu := 2
    cpuLoadUsage := 12
    ram := 12
    ramUsageTotalAverage := 12 }

/-- The assignments to the metrics of the host. -/
def reportHost (name : String) (res : ℚ) (interfaces : List String) (memorySize : Nat)
    (metrics : HostMetric) : HostMetric :=
  let metrics := { metrics with ip := interfaces.head?.or metrics.ip }
  let metrics :=
    if name = "RAM/Usage/Total:avg" then { metrics with ramUsageTotalAverage := toInt32 res }
    else if name = "CPU/Load/User:avg" then { metrics with cpuLoadUsage := toFloat res }
    else metrics
  { metrics with
    ram := memorySize
    corePerCpu := 1
    cpu := 1 }

/-- An element of the list `machines`; an uuid that was never set is not readable. -/
structure Machine where
  metrics : MachineMetric
  initialised : Bool

/-- The branch for a guest. For a machine that is not found, the first one is initialised again, not the
new one. `none` where the search reads an uuid that is not there. -/
def guestTurn (name : String) (res : ℚ) (uuid : String) : List Machine → Option (List Machine)
  | [] => some [⟨reportGuest name res { machineInit with uuid := some uuid }, true⟩]
  | first :: rest =>
    (searchString (fun machine => machine.metrics.uuid) (some uuid) (first :: rest)).toOption.map fun found =>
      match found with
      | some k => (first :: rest).modify k fun machine =>
        { machine with metrics := reportGuest name res machine.metrics }
      | none => ⟨machineInit, true⟩ :: rest ++ [⟨reportGuest name res machineInit, false⟩]

/-- The variables of the loop over the metrics. -/
structure Gathering where
  res : ℚ
  machines : List Machine
  metrics : HostMetric

def metricTurn (q : Query) (s : Gathering) (m : QueryMetric) : Option Gathering :=
  let res := resTurn q s.res m
  match m.object with
  | .machine uuid => (guestTurn m.name res uuid s.machines).map fun machines => { s with res, machines }
  | .host interfaces memorySize =>
    some { s with res, metrics := reportHost m.name res interfaces memorySize s.metrics }
  | .other => some { s with res }

/-- `_get_metrics`. It packs the report, and cannot if a machine's metrics were never initialised. -/
def getMetrics (q : Query) (metrics : HostMetric) : Option HostMetric :=
  (q.metrics.foldlM (metricTurn q) ⟨0, [], metrics⟩).bind fun s =>
    if s.machines.all (·.initialised) then some { s.metrics with machines := s.machines.map (·.metrics) }
    else none

/-- `HOST_METRIC__INIT` -/
def hostInit : HostMetric := ⟨none, 0, 0, 0, 0, 0, []⟩

/-- The mean of the samples of a metric. -/
def Query.mean (q : Query) (m : QueryMetric) : ℚ := ((q.window m).sum : ℚ) / (q.window m).length

def QueryObject.isHost : QueryObject → Bool
  | .host _ _ => true
  | _ => false

/-- A metric of the host with this name. -/
def QueryMetric.ofHost (m : QueryMetric) (name : String) : Prop := m.object.isHost = true ∧ m.name = name

instance (m : QueryMetric) (name : String) : Decidable (m.ofHost name) := inferInstanceAs (Decidable (_ ∧ _))

/-- A usage in the report of the host, and the metric that it is taken from. From numbers below the threshold, but
no less than 1, the conversion tells those from the threshold on. -/
structure Usage (β : Type) where
  name : String
  convert : ℚ → β
  read : HostMetric → β
  reported : ∀ name' res interfaces memorySize metrics,
    read (reportHost name' res interfaces memorySize metrics) = if name' = name then convert res else read metrics
  kept : ∀ metrics machines, read { metrics with machines := machines } = read metrics
  threshold : ℚ
  above : 1 < threshold
  near : threshold ≤ 2
  splits : ∀ x y, 1 ≤ x → x < threshold → threshold ≤ y → convert x ≠ convert y

theorem toInt32_nonneg {x : ℚ} (nonneg : 0 ≤ x) : toInt32 x = if IsInt ⌊x⌋ then ⌊x⌋ else -2 ^ 31 := by
  rw [toInt32,Int.tdiv_eq_ediv_of_nonneg (Rat.num_nonneg.mpr nonneg),← Rat.floor_def]
  rfl

theorem toInt32_splits {x y : ℚ} (one : 1 ≤ x) (below : x < 2) (above : 2 ≤ y) : toInt32 x ≠ toInt32 y := by
  have floor_x : ⌊x⌋ = 1 := Int.floor_eq_iff.mpr ⟨by exact_mod_cast one, by norm_num; exact below⟩
  have floor_y : 2 ≤ ⌊y⌋ := Int.le_floor.mpr (by exact_mod_cast above)
  rw [toInt32_nonneg (by linarith),toInt32_nonneg (by linarith),floor_x,if_pos (by decide)]
  split
  · omega
  · decide

/-- Between 1 and 2 the last place of a `float` is 2^-23. -/
theorem single_of_near {x : ℚ} (one : 1 ≤ x) (below : x < 2) :
    Rounding.single x = Rounding.toEven (x * 2 ^ 23) / 2 ^ 23 := by
  have log : Int.log 2 |x| = 0 := Rounding.log_eq (by simpa using one) (by simpa using below)
  have place : Rounding.exponent 24 (-149) x = -23 := by
    rw [Rounding.exponent,log]
    decide
  rw [Rounding.single,Rounding.nearest,place,zpow_neg,div_inv_eq_mul,← div_eq_mul_inv]
  norm_cast

theorem toFloat_splits {x y : ℚ} (one : 1 ≤ x) (below : x < 1 + 3 / 2 ^ 24) (above : 1 + 3 / 2 ^ 24 ≤ y) :
    toFloat x ≠ toFloat y := by
  have low : Rounding.single x ≤ (2 ^ 23 + 1 : Int) / 2 ^ 23 := by
    rw [single_of_near one (by linarith)]
    have rounded : Rounding.toEven (x * 2 ^ 23) ≤ 2 ^ 23 + 1 :=
      Rounding.toEven_le (by push_cast; linarith)
    gcongr
  have high : ((2 ^ 23 + 2 : Int) : ℚ) / 2 ^ 23 ≤ Rounding.single y := by
    by_cases small : y < 2
    · rw [single_of_near (by linarith) small]
      have rounded : (2 ^ 23 + 1 : Int) < Rounding.toEven (y * 2 ^ 23) :=
        Rounding.lt_toEven_of_odd (by decide) (by push_cast; linarith)
      have rounded : (2 ^ 23 + 2 : Int) ≤ Rounding.toEven (y * 2 ^ 23) := by omega
      gcongr
    · have power : (2 : ℚ) ^ (1 : Int) ≤ Rounding.single y :=
        Rounding.pow_le_nearest (by decide) (by decide) (by simpa using small)
      norm_num at power ⊢
      linarith
  intro same
  unfold toFloat at same
  rw [← same] at high
  norm_num at low high
  linarith

def ramUsage : Usage Int where
  name := "RAM/Usage/Total:avg"
  convert := toInt32
  read := HostMetric.ramUsageTotalAverage
  reported name' res interfaces memorySize metrics := by
    unfold reportHost
    split
    · rfl
    · split <;> rfl
  kept _ _ := rfl
  threshold := 2
  above := by norm_num
  near := by norm_num
  splits _ _ := toInt32_splits

def cpuUsage : Usage ℚ where
  name := "CPU/Load/User:avg"
  convert := toFloat
  read := HostMetric.cpuLoadUsage
  reported name' res interfaces memorySize metrics := by
    unfold reportHost
    by_cases ram : name' = "RAM/Usage/Total:avg"
    · subst ram
      rfl
    · simp only [ram,if_false]
      split <;> rfl
  kept _ _ := rfl
  threshold := 1 + 3 / 2 ^ 24
  above := by norm_num
  near := by norm_num
  splits _ _ := toFloat_splits

/-- The usage is the mean of the last metric of the host with its name that has samples. -/
def Query.Reports (q : Query) (usage : Usage β) (result : HostMetric) : Prop :=
  ∀ before m after, q.metrics = before ++ m :: after → m.ofHost usage.name → 0 < m.length →
    (∀ later ∈ after, later.ofHost usage.name → later.length = 0) →
      usage.read result = usage.convert (q.mean m)

/-- The query with other samples. -/
def Query.resample (q : Query) (samples : List Int) (same : samples.length = q.data.length) : Query :=
  { q with data := samples, inside := same ▸ q.inside }

/-- The metrics up to the last one of the host with this name. -/
def upToLast (name : String) (ms : List QueryMetric) : List QueryMetric :=
  ms.rdropWhile fun m => ¬ m.ofHost name

theorem upToLast_append_singleton (name : String) (ms : List QueryMetric) (m : QueryMetric) :
    upToLast name (ms ++ [m]) = if m.ofHost name then ms ++ [m] else upToLast name ms := by
  rw [upToLast,List.rdropWhile_concat]
  by_cases named : m.ofHost name <;> simp [named,upToLast]

theorem upToLast_append_cons {name : String} (before : List QueryMetric) {m : QueryMetric}
    (named : m.ofHost name) (after : List QueryMetric) :
    upToLast name (before ++ m :: after) = before ++ m :: upToLast name after := by
  induction after using List.reverseRecOn with
  | nil => rw [upToLast_append_singleton,if_pos named]; rfl
  | append_singleton after last ih =>
    have assoc : before ++ m :: (after ++ [last]) = (before ++ m :: after) ++ [last] := by simp
    rw [assoc,upToLast_append_singleton,upToLast_append_singleton,ih]
    split <;> simp

section OneUsage
variable {β : Type} (usage : Usage β)

theorem metricTurn_usage {q : Query} {s next : Gathering} {m : QueryMetric}
    (turn : metricTurn q s m = some next) :
    next.res = resTurn q s.res m ∧ usage.read next.metrics =
      if m.ofHost usage.name then usage.convert (resTurn q s.res m) else usage.read s.metrics := by
  unfold metricTurn at turn
  cases object : m.object with
  | machine uuid =>
    simp only [object,Option.map_eq_some_iff] at turn
    obtain ⟨machines, _, rfl⟩ := turn
    exact ⟨rfl, by simp [QueryMetric.ofHost,object,QueryObject.isHost]⟩
  | host interfaces memorySize =>
    simp only [object,Option.some.injEq] at turn
    subst turn
    exact ⟨rfl, by simp [QueryMetric.ofHost,object,QueryObject.isHost,usage.reported]⟩
  | other =>
    simp only [object,Option.some.injEq] at turn
    subst turn
    exact ⟨rfl, by simp [QueryMetric.ofHost,object,QueryObject.isHost]⟩

/-- After a run, the usage is from the last metric with its name, with samples or without. -/
theorem run_usage {q : Query} {ms : List QueryMetric} {s final : Gathering}
    (run : ms.foldlM (metricTurn q) s = some final) :
    final.res = ms.foldl (resTurn q) s.res ∧ usage.read final.metrics =
      if upToLast usage.name ms = [] then usage.read s.metrics
      else usage.convert ((upToLast usage.name ms).foldl (resTurn q) s.res) := by
  induction ms using List.reverseRecOn generalizing final with
  | nil =>
    cases run
    exact ⟨rfl, rfl⟩
  | append_singleton ms m ih =>
    rw [List.foldlM_append] at run
    obtain ⟨s', earlier, turn⟩ := Option.bind_eq_some_iff.mp run
    rw [List.foldlM_cons] at turn
    obtain ⟨next, turn, same⟩ := Option.bind_eq_some_iff.mp turn
    cases same
    obtain ⟨res, read⟩ := ih earlier
    obtain ⟨next_res, next_read⟩ := metricTurn_usage usage turn
    rw [next_res,next_read,res,read,upToLast_append_singleton,List.foldl_append]
    refine ⟨rfl, ?_⟩
    split <;> simp

end OneUsage

theorem window_length {q : Query} {m : QueryMetric} (member : m ∈ q.metrics) : (q.window m).length = m.length := by
  have inside := q.inside m member
  rw [Query.window,List.length_take,List.length_drop]
  omega

/-- Where a usage is taken from a metric with samples, no other metric has some that comes before it, or between it
and the last metric of its name. -/
def Query.Alone (q : Query) (name : String) : Prop :=
  ∀ before m after, q.metrics = before ++ m :: after → m.ofHost name → 0 < m.length →
    (∀ later ∈ after, later.ofHost name → later.length = 0) →
      ∀ other ∈ before ++ upToLast name after, other.length = 0

section Samples
variable {q : Query} {m : QueryMetric} {ms : List QueryMetric} {res : ℚ}

theorem resTurn_empty (empty : m.length = 0) : resTurn q res m = res := by
  simp [resTurn,Query.window,empty]

theorem resTurn_eq (some_sample : 0 < m.length) : resTurn q res m = (res + (q.window m).sum) / m.length := by
  have summed (samples : List Int) (res : ℚ) :
      samples.foldl (fun (res : ℚ) (sample : Int) => res + sample) res = res + samples.sum := by
    induction samples generalizing res with
    | nil => simp
    | cons sample rest ih =>
      rw [List.foldl_cons,ih,List.sum_cons,Int.cast_add,add_assoc]
  rw [resTurn,if_pos some_sample,summed]

theorem res_empty (empty : ∀ m ∈ ms, m.length = 0) : ms.foldl (resTurn q) res = res := by
  induction ms with
  | nil => rfl
  | cons m rest ih =>
    obtain ⟨first, others⟩ := List.forall_mem_cons.mp empty
    rw [List.foldl_cons,resTurn_empty first,ih others]

/-- A metric that stands alone leaves its mean. -/
theorem res_alone {before through : List QueryMetric} (member : m ∈ q.metrics) (some_sample : 0 < m.length)
    (alone : ∀ other ∈ before ++ through, other.length = 0) :
    (before ++ m :: through).foldl (resTurn q) 0 = q.mean m := by
  rw [List.foldl_append,res_empty fun other earlier => alone other (List.mem_append_left _ earlier),
    List.foldl_cons,res_empty fun other later => alone other (List.mem_append_right _ later),
    resTurn_eq some_sample,zero_add,Query.mean,window_length member]

/-- Where no sample is below 1, `res` is not after the first samples. -/
theorem one_le_res (full : ∀ m ∈ ms, (m.length : ℚ) ≤ (q.window m).sum) (nonneg : 0 ≤ res)
    (started : 1 ≤ res ∨ ∃ m ∈ ms, 0 < m.length) : 1 ≤ ms.foldl (resTurn q) res := by
  induction ms generalizing res with
  | nil => exact started.resolve_right (by simp)
  | cons m rest ih =>
    obtain ⟨own, others⟩ := List.forall_mem_cons.mp full
    rw [List.foldl_cons]
    rcases Nat.eq_zero_or_pos m.length with empty | some_sample
    · rw [resTurn_empty empty]
      refine ih others nonneg (started.imp_right ?_)
      rintro ⟨x, member, sampled⟩
      rcases List.mem_cons.mp member with rfl | later
      · omega
      · exact ⟨x, later, sampled⟩
    · have one : 1 ≤ resTurn q res m := by
        have positive : (0 : ℚ) < m.length := by exact_mod_cast some_sample
        rw [resTurn_eq some_sample,le_div_iff₀ positive]
        linarith
      exact ih others (by linarith) (.inl one)

end Samples

/-- Of the places of one window so many can be raised that its sum almost reaches the threshold, and another window
stays below it. -/
theorem exists_raised {target other : Finset Nat} {threshold : ℚ} (above : 1 < threshold) (near : threshold ≤ 2)
    (some_target : 0 < target.card) (some_other : 0 < other.card) :
    ∃ raised ⊆ target, threshold * target.card ≤ target.card + raised.card + 1 ∧
      (other.card + (other ∩ raised).card : ℚ) < threshold * other.card := by
  have positive : (0 : ℚ) < target.card := by exact_mod_cast some_target
  have positive' : (0 : ℚ) < other.card := by exact_mod_cast some_other
  have gap : 0 < (threshold - 1) * target.card := mul_pos (by linarith) positive
  obtain ⟨e, low, high⟩ : ∃ e : Nat, (e : ℚ) < (threshold - 1) * target.card ∧
      (threshold - 1) * target.card ≤ e + 1 := by
    have ceil := Nat.ceil_pos.mpr gap
    refine ⟨⌈(threshold - 1) * target.card⌉₊ - 1, ?_, ?_⟩
    · have := Nat.ceil_lt_add_one gap.le
      rw [Nat.cast_sub ceil]
      push_cast
      linarith
    · have := Nat.le_ceil ((threshold - 1) * target.card)
      rw [Nat.cast_sub ceil]
      push_cast
      linarith
  have few : e ≤ target.card := by
    have : (e : ℚ) < target.card := by nlinarith
    exact_mod_cast this.le
  rcases Nat.le_total e (target \ other).card with outside | more
  · obtain ⟨raised, inside, card⟩ := Finset.exists_subset_card_eq outside
    have apart : other ∩ raised = ∅ := by
      apply Finset.disjoint_iff_inter_eq_empty.mp
      exact Finset.disjoint_of_subset_right inside Finset.disjoint_sdiff
    refine ⟨raised, inside.trans Finset.sdiff_subset, by rw [card]; linarith, ?_⟩
    rw [apart,Finset.card_empty]
    push_cast
    nlinarith
  · obtain ⟨raised, outside, inside, card⟩ := Finset.exists_subsuperset_card_eq Finset.sdiff_subset more few
    have rest : raised \ other = target \ other := by
      apply Finset.Subset.antisymm (Finset.sdiff_subset_sdiff inside (Finset.Subset.refl _))
      exact fun x member => Finset.mem_sdiff.mpr ⟨outside member, (Finset.mem_sdiff.mp member).2⟩
    have split := Finset.card_sdiff_add_card_inter raised other
    have split' := Finset.card_sdiff_add_card_inter target other
    have shared : (target ∩ other).card ≤ other.card := Finset.card_le_card Finset.inter_subset_right
    rw [rest,card] at split
    rw [Finset.inter_comm] at split
    refine ⟨raised, inside, by rw [card]; linarith, ?_⟩
    have split : ((target \ other).card : ℚ) + (other ∩ raised).card = e := by exact_mod_cast split
    have split' : ((target \ other).card : ℚ) + (target ∩ other).card = target.card := by exact_mod_cast split'
    have shared : ((target ∩ other).card : ℚ) ≤ other.card := by exact_mod_cast shared
    have outside_card : (0 : ℚ) ≤ (target \ other).card := Nat.cast_nonneg _
    nlinarith

/-- The places of a window. -/
def QueryMetric.places (m : QueryMetric) : Finset Nat := Finset.Ico m.index (m.index + m.length)

/-- Samples of 1, and of 2 where they are raised. -/
def raisedSamples (raised : Finset Nat) (n : Nat) : List Int :=
  (List.range n).map fun i => if i ∈ raised then 2 else 1

theorem raisedSamples_length (raised : Finset Nat) (n : Nat) : (raisedSamples raised n).length = n := by
  simp [raisedSamples]

theorem raisedSamples_sum {raised : Finset Nat} {n index length : Nat} (inside : index + length ≤ n) :
    (((raisedSamples raised n).drop index).take length).sum =
      (length + (Finset.Ico index (index + length) ∩ raised).card : Int) := by
  induction length with
  | zero => simp
  | succ length ih =>
    have place : ((raisedSamples raised n).drop index)[length]? =
        some (if index + length ∈ raised then 2 else 1) := by
      rw [List.getElem?_drop,raisedSamples,List.getElem?_map,List.getElem?_range (by omega)]
      rfl
    have fresh : index + length ∉ Finset.Ico index (index + length) ∩ raised := by simp
    rw [List.take_add_one,place,List.sum_append,ih (by omega),← add_assoc,
      Nat.Ico_succ_right_eq_insert_Ico (by omega : index ≤ index + length)]
    by_cases up : index + length ∈ raised
    · rw [if_pos up,Finset.insert_inter_of_mem up,Finset.card_insert_of_notMem fresh]
      simp only [Option.toList_some,List.sum_singleton]
      push_cast
      ring
    · rw [if_neg up,Finset.insert_inter_of_notMem up]
      simp only [Option.toList_some,List.sum_singleton]
      push_cast
      ring

def QueryMetric.sampled (m : QueryMetric) : Bool := 0 < m.length

/-- The last of some metrics that has samples. -/
theorem exists_last_sampled {ms : List QueryMetric} (some_sampled : ∃ m ∈ ms, 0 < m.length) :
    ∃ first m rest, ms = first ++ m :: rest ∧ 0 < m.length ∧ ∀ x ∈ rest, x.length = 0 := by
  induction ms using List.reverseRecOn with
  | nil => simp at some_sampled
  | append_singleton ms last ih =>
    rcases Nat.eq_zero_or_pos last.length with empty | sampled
    · obtain ⟨m, member, has⟩ := some_sampled
      have earlier : m ∈ ms := by
        rcases List.mem_append.mp member with inside | is
        · exact inside
        · rw [List.mem_singleton.mp is] at has
          omega
      obtain ⟨first, x, rest, rfl, some_sample, others⟩ := ih ⟨m, earlier, has⟩
      refine ⟨first, x, rest ++ [last], by simp, some_sample, fun y member => ?_⟩
      rcases List.mem_append.mp member with inside | is
      · exact others y inside
      · rw [List.mem_singleton.mp is,empty]
    · exact ⟨ms, last, [], rfl, sampled, by simp⟩

/-- Where a metric with samples is not alone, some samples make `res` pass a threshold that their mean does
not reach. -/
theorem exists_disturbed {q : Query} {m : QueryMetric} {before through : List QueryMetric} {threshold : ℚ}
    (above : 1 < threshold) (near : threshold ≤ 2) (member : ∀ x ∈ before ++ m :: through, x ∈ q.metrics)
    (some_sample : 0 < m.length) (disturbed : ∃ other ∈ before ++ through, 0 < other.length) :
    ∃ samples, ∃ same : samples.length = q.data.length, (∀ s ∈ samples, IsInt s) ∧
      1 ≤ (q.resample samples same).mean m ∧ (q.resample samples same).mean m < threshold ∧
      threshold ≤ (before ++ m :: through).foldl (resTurn (q.resample samples same)) 0 := by
  have some_sampled : ∃ x ∈ before ++ m :: through, 0 < x.length := ⟨m, by simp, some_sample⟩
  obtain ⟨first, target, rest, split, sampled, empty⟩ := exists_last_sampled some_sampled
  -- Some metric before the last one with samples has samples too.
  have earlier : ∃ x ∈ first, 0 < x.length := by
    obtain ⟨other, inside, sampled_other⟩ := disturbed
    have one : 0 < (before ++ through).countP QueryMetric.sampled :=
      List.countP_pos_iff.mpr ⟨other, inside, by simpa [QueryMetric.sampled] using sampled_other⟩
    have none : rest.countP QueryMetric.sampled = 0 :=
      List.countP_eq_zero.mpr fun x later => by simp [QueryMetric.sampled,empty x later]
    have counted := congrArg (List.countP QueryMetric.sampled) split
    have own : m.sampled = true := by simpa [QueryMetric.sampled] using some_sample
    have target_own : target.sampled = true := by simpa [QueryMetric.sampled] using sampled
    simp only [List.countP_append,List.countP_cons,own,target_own,none,if_true] at counted one
    obtain ⟨x, found, has⟩ := List.countP_pos_iff.mp (by omega : 0 < first.countP QueryMetric.sampled)
    simp only [QueryMetric.sampled,decide_eq_true_eq] at has
    exact ⟨x, found, has⟩
  have card (x : QueryMetric) : x.places.card = x.length := by simp [QueryMetric.places]
  obtain ⟨raised, inside, high, low⟩ := @exists_raised target.places m.places threshold above near
    (by rwa [card]) (by rwa [card])
  have length := raisedSamples_length raised q.data.length
  refine ⟨raisedSamples raised q.data.length, length, ?_, ?_⟩
  · intro s member
    obtain ⟨i, _, rfl⟩ := List.mem_map.mp member
    split <;> decide
  generalize same : q.resample (raisedSamples raised q.data.length) length = q'
  have window (x : QueryMetric) (known : x ∈ before ++ m :: through) :
      (((q'.window x).sum : Int) : ℚ) = x.length + (x.places ∩ raised).card := by
    subst same
    have sum := @raisedSamples_sum raised _ _ _ (q.inside x (member x known))
    rw [Query.window,Query.resample,sum]
    push_cast
    rfl
  have own : (m.length : ℚ) ≠ 0 := by exact_mod_cast some_sample.ne'
  have positive : (0 : ℚ) < m.length := by exact_mod_cast some_sample
  have mean : q'.mean m = (m.length + (m.places ∩ raised).card) / m.length := by
    have length : (q'.window m).length = m.length := by
      subst same
      exact @window_length (q.resample _ length) m (member m (by simp))
    rw [Query.mean,window m (by simp),length]
  refine ⟨?_, ?_, ?_⟩
  · rw [mean,le_div_iff₀ positive]
    linarith [(Nat.cast_nonneg (m.places ∩ raised).card : (0 : ℚ) ≤ _)]
  · rw [card] at low
    rw [mean,div_lt_iff₀ positive]
    exact low
  · have is_target : target ∈ before ++ m :: through := split ▸ by simp
    have left : target.places ∩ raised = raised := Finset.inter_eq_right.mpr inside
    have one : 1 ≤ first.foldl (resTurn q') 0 := by
      refine one_le_res (fun x known => ?_) (le_refl 0) (.inr earlier)
      rw [window x (split ▸ List.mem_append_left _ known)]
      linarith [(Nat.cast_nonneg (x.places ∩ raised).card : (0 : ℚ) ≤ _)]
    rw [card] at high
    rw [split,List.foldl_append,List.foldl_cons,res_empty empty,resTurn_eq sampled,window target is_target,left,
      le_div_iff₀ (by exact_mod_cast sampled)]
    linarith

/-- All guests among the objects are this machine. -/
def GuestsAre (uuid : String) (ms : List QueryMetric) : Prop :=
  ∀ m ∈ ms, ∀ other, m.object = .machine other → other = uuid

/-- The list of machines while there was no guest, or one machine alone. -/
def Held : Option String → List Machine → Prop
  | none, machines => machines = []
  | some uuid, machines => ∃ metrics, machines = [⟨metrics, true⟩] ∧ metrics.uuid = some uuid

/-- A machine's metrics were never initialised. -/
def Spoiled (machines : List Machine) : Prop := ∃ machine ∈ machines, machine.initialised = false

theorem reportGuest_uuid (name : String) (res : ℚ) (metrics : MachineMetric) :
    (reportGuest name res metrics).uuid = metrics.uuid := by
  unfold reportGuest
  split
  · rfl
  · split <;> rfl

/-- The machine that is held is found again, and another one spoils the list. -/
theorem guestTurn_held {known : Option String} {machines : List Machine} (held : Held known machines)
    (name : String) (res : ℚ) (uuid : String) : ∃ next, guestTurn name res uuid machines = some next ∧
      if known.all (· = uuid) then Held (some uuid) next else Spoiled next := by
  cases known with
  | none =>
    cases held
    exact ⟨_, rfl, _, rfl, reportGuest_uuid _ _ _⟩
  | some first =>
    obtain ⟨metrics, rfl, is⟩ := held
    by_cases same : first = uuid
    · subst same
      refine ⟨[⟨reportGuest name res metrics, true⟩], ?_, ?_⟩
      · have found : searchString (fun machine : Machine => machine.metrics.uuid) (some first) [⟨metrics, true⟩] =
            .ok (some 0) := by
          simp only [searchString,is,strEq,beq_self_eq_true]
          rfl
        rw [guestTurn,found]
        rfl
      · simp only [Option.all_some,decide_true,if_true]
        exact ⟨_, rfl, (reportGuest_uuid _ _ _).trans is⟩
    · refine ⟨[⟨machineInit, true⟩, ⟨reportGuest name res machineInit, false⟩], ?_, ?_⟩
      · have absent : searchString (fun machine : Machine => machine.metrics.uuid) (some uuid) [⟨metrics, true⟩] =
            .ok none := by
          simp only [searchString,is,strEq,beq_eq_false_iff_ne.mpr same]
          rfl
        rw [guestTurn,absent]
        rfl
      · simp [same,Spoiled]

/-- A machine that was not initialised stays in the list. -/
theorem guestTurn_spoiled {machines next : List Machine} (spoiled : Spoiled machines) {name : String} {res : ℚ}
    {uuid : String} (turn : guestTurn name res uuid machines = some next) : Spoiled next := by
  cases machines with
  | nil => simp [Spoiled] at spoiled
  | cons first rest =>
    rw [guestTurn] at turn
    obtain ⟨found, _, rfl⟩ := Option.map_eq_some_iff.mp turn
    cases found with
    | none => exact ⟨⟨reportGuest name res machineInit, false⟩, by simp, rfl⟩
    | some k =>
      obtain ⟨machine, member, not_initialised⟩ := spoiled
      obtain ⟨i, at_i⟩ := List.mem_iff_getElem?.mp member
      refine ⟨_, List.mem_of_getElem? (i := i) (by rw [List.getElem?_modify,at_i]; rfl), ?_⟩
      split
      · exact not_initialised
      · exact not_initialised

theorem metricTurn_guest (q : Query) (s : Gathering) {m : QueryMetric} {uuid : String}
    (object : m.object = .machine uuid) :
    metricTurn q s m = (guestTurn m.name (resTurn q s.res m) uuid s.machines).map fun machines =>
      ⟨resTurn q s.res m, machines, s.metrics⟩ := by
  rw [metricTurn,object]

theorem metricTurn_rest (q : Query) (s : Gathering) {m : QueryMetric}
    (no_guest : ∀ uuid, m.object ≠ .machine uuid) :
    ∃ next, metricTurn q s m = some next ∧ next.machines = s.machines := by
  unfold metricTurn
  cases object : m.object with
  | machine uuid => exact absurd object (no_guest uuid)
  | host interfaces memorySize => exact ⟨_, rfl, rfl⟩
  | other => exact ⟨_, rfl, rfl⟩

theorem run_spoiled {q : Query} {ms : List QueryMetric} {s final : Gathering} (spoiled : Spoiled s.machines)
    (run : ms.foldlM (metricTurn q) s = some final) : Spoiled final.machines := by
  induction ms generalizing s with
  | nil =>
    cases run
    exact spoiled
  | cons m rest ih =>
    rw [List.foldlM_cons] at run
    obtain ⟨next, turn, run⟩ := Option.bind_eq_some_iff.mp run
    refine ih ?_ run
    by_cases guest : ∃ uuid, m.object = .machine uuid
    · obtain ⟨uuid, object⟩ := guest
      rw [metricTurn_guest q s object] at turn
      obtain ⟨machines, turned, rfl⟩ := Option.map_eq_some_iff.mp turn
      exact guestTurn_spoiled spoiled turned
    · obtain ⟨same, turned, machines⟩ := metricTurn_rest q s (not_exists.mp guest)
      obtain rfl : same = next := by simpa [turned] using turn
      exact machines ▸ spoiled

/-- The loop gets through, and its machines can be packed, exactly if all guests are one machine. -/
theorem run_guests_iff {q : Query} {known : Option String} {ms : List QueryMetric} {s : Gathering}
    (held : Held known s.machines) :
    (∃ final, ms.foldlM (metricTurn q) s = some final ∧ ¬ Spoiled final.machines) ↔
      ∃ uuid, known.all (· = uuid) ∧ GuestsAre uuid ms := by
  induction ms generalizing known s with
  | nil =>
    refine iff_of_true ⟨s, rfl, ?_⟩ ?_
    · cases known with
      | none =>
        have empty : s.machines = [] := held
        simp [Spoiled,empty]
      | some uuid =>
        obtain ⟨metrics, one, _⟩ := held
        simp [Spoiled,one]
    · refine ⟨known.getD "", ?_, fun _ member => absurd member List.not_mem_nil⟩
      cases known <;> simp
  | cons m rest ih =>
    have guests_cons (uuid : String) : GuestsAre uuid (m :: rest) ↔
        (∀ other, m.object = .machine other → other = uuid) ∧ GuestsAre uuid rest := List.forall_mem_cons
    rw [List.foldlM_cons]
    by_cases guest : ∃ uuid, m.object = .machine uuid
    · obtain ⟨uuid, object⟩ := guest
      obtain ⟨next, turned, kept⟩ := guestTurn_held held m.name (resTurn q s.res m) uuid
      rw [metricTurn_guest q s object,turned]
      simp only [Option.map_some,Option.bind_eq_bind,Option.bind_some,guests_cons]
      split at kept
      next same =>
        rw [ih (s := ⟨resTurn q s.res m, next, s.metrics⟩) kept]
        constructor
        · rintro ⟨own, is, guests⟩
          obtain rfl : uuid = own := by simpa using is
          exact ⟨uuid, same, fun other is => by cases object.symm.trans is; rfl, guests⟩
        · rintro ⟨own, _, first, guests⟩
          obtain rfl := first uuid object
          exact ⟨uuid, by simp, guests⟩
      next differs =>
        refine iff_of_false ?_ ?_
        · rintro ⟨final, run, fine⟩
          exact fine (run_spoiled kept run)
        · rintro ⟨own, all_own, first, _⟩
          obtain rfl := first uuid object
          exact differs all_own
    · obtain ⟨next, turned, machines⟩ := metricTurn_rest q s (not_exists.mp guest)
      have no_guest (uuid : String) : ∀ other, m.object = .machine other → other = uuid :=
        fun other object => absurd ⟨other, object⟩ guest
      rw [turned]
      simp only [Option.bind_eq_bind,Option.bind_some,guests_cons]
      rw [ih (machines ▸ held)]
      exact exists_congr fun uuid => and_congr_right fun _ => ⟨fun guests => ⟨no_guest uuid, guests⟩, And.right⟩

theorem getMetrics_some {q : Query} {metrics result : HostMetric} :
    getMetrics q metrics = some result ↔
      ∃ final, q.metrics.foldlM (metricTurn q) ⟨0, [], metrics⟩ = some final ∧ ¬ Spoiled final.machines ∧
        result = { final.metrics with machines := final.machines.map (·.metrics) } := by
  have packable (machines : List Machine) : machines.all (·.initialised) = true ↔ ¬ Spoiled machines := by
    simp [Spoiled]
  rw [getMetrics,Option.bind_eq_some_iff]
  refine exists_congr fun final => and_congr_right fun _ => ?_
  rw [Option.ite_none_right_eq_some,packable,Option.some.injEq,eq_comm (b := result)]

/-- What a usage is in the report: `res` after the last metric of its name, converted. -/
theorem read_eq (usage : Usage β) {q : Query} {metrics result : HostMetric} (got : getMetrics q metrics = some result)
    {before after : List QueryMetric} {m : QueryMetric} (split : q.metrics = before ++ m :: after)
    (named : m.ofHost usage.name) :
    usage.read result = usage.convert ((before ++ m :: upToLast usage.name after).foldl (resTurn q) 0) := by
  obtain ⟨final, run, _, rfl⟩ := getMetrics_some.mp got
  have read := (run_usage usage run).2
  rw [split,upToLast_append_cons before named,if_neg (by simp)] at read
  rw [usage.kept,read]

theorem mem_of_mem_upToLast {name : String} {after : List QueryMetric} {x : QueryMetric}
    (member : x ∈ upToLast name after) : x ∈ after :=
  (List.rdropWhile_prefix _ after).subset member

theorem Query.Alone.reports {usage : Usage β} {q : Query} {metrics result : HostMetric} (alone : q.Alone usage.name)
    (got : getMetrics q metrics = some result) : q.Reports usage result := by
  intro before m after split named some_sample last
  rw [read_eq usage got split named,
    res_alone (split ▸ by simp) some_sample (alone before m after split named some_sample last)]

/-- The report is built and both usages are the means. -/
def Query.Means (q : Query) (metrics : HostMetric) : Prop :=
  ∃ result, getMetrics q metrics = some result ∧ q.Reports ramUsage result ∧ q.Reports cpuUsage result

/-- If a usage is the mean whatever the samples are, its metric is alone. -/
theorem alone_of_reports (usage : Usage β) {q : Query} {metrics : HostMetric}
    (always : ∀ samples (same : samples.length = q.data.length), (∀ s ∈ samples, IsInt s) →
      ∃ result, getMetrics (q.resample samples same) metrics = some result ∧
        (q.resample samples same).Reports usage result) : q.Alone usage.name := by
  intro before m after split named some_sample last
  by_contra disturbed
  push Not at disturbed
  obtain ⟨other, member, sampled⟩ := disturbed
  have known : ∀ x ∈ before ++ m :: upToLast usage.name after, x ∈ q.metrics := by
    intro x inside
    rw [split]
    rcases List.mem_append.mp inside with earlier | later
    · exact List.mem_append_left _ earlier
    · refine List.mem_append_right _ ?_
      rcases List.mem_cons.mp later with rfl | later
      · exact List.mem_cons_self
      · exact List.mem_cons_of_mem _ (mem_of_mem_upToLast later)
  obtain ⟨samples, same, ints, one, below, above⟩ :=
    exists_disturbed usage.above usage.near known some_sample ⟨other, member, Nat.pos_of_ne_zero sampled⟩
  obtain ⟨result, got, reports⟩ := always samples same ints
  have read := read_eq usage got split named
  rw [reports before m after split named some_sample last] at read
  exact usage.splits _ _ one below above read

/-- Whatever the samples are, the report is built and its usages are the means exactly if all guests are one
machine and the metrics that the usages are taken from are alone. -/
theorem usages_are_means (q : Query) (metrics : HostMetric) :
    (∀ samples (same : samples.length = q.data.length), (∀ s ∈ samples, IsInt s) →
      (q.resample samples same).Means metrics) ↔
      (∃ uuid, GuestsAre uuid q.metrics) ∧ q.Alone ramUsage.name ∧ q.Alone cpuUsage.name := by
  have none_held : Held none (⟨0, [], metrics⟩ : Gathering).machines := rfl
  constructor
  · intro always
    refine ⟨?_, ?_, ?_⟩
    · obtain ⟨result, got, _⟩ := always (raisedSamples ∅ q.data.length) (raisedSamples_length _ _)
        fun s member => by
          obtain ⟨i, _, rfl⟩ := List.mem_map.mp member
          split <;> decide
      obtain ⟨final, run, fine, _⟩ := getMetrics_some.mp got
      obtain ⟨uuid, _, one⟩ := (run_guests_iff none_held).mp ⟨final, run, fine⟩
      exact ⟨uuid, one⟩
    · exact alone_of_reports ramUsage fun samples same ints =>
        (always samples same ints).imp fun _ means => ⟨means.1, means.2.1⟩
    · exact alone_of_reports cpuUsage fun samples same ints =>
        (always samples same ints).imp fun _ means => ⟨means.1, means.2.2⟩
  · rintro ⟨⟨uuid, one⟩, ram, cpu⟩ samples same _
    obtain ⟨final, run, fine⟩ := (@run_guests_iff (q.resample samples same) none q.metrics _ none_held).mpr
      ⟨uuid, rfl, one⟩
    have got := getMetrics_some.mpr ⟨final, run, fine, rfl⟩
    have alone_ram : (q.resample samples same).Alone ramUsage.name := ram
    have alone_cpu : (q.resample samples same).Alone cpuUsage.name := cpu
    exact ⟨_, got, alone_ram.reports got, alone_cpu.reports got⟩

/-- Two samples of the host's load, then two of its memory. -/
def loadThenMemory : Query where
  data := [60, 80, 30, 40]
  metrics := [⟨"CPU/Load/User:avg", .host ["10.0.0.1"] 8192, 0, 2⟩,
    ⟨"RAM/Usage/Total:avg", .host ["10.0.0.1"] 8192, 2, 2⟩]
  inside := by decide

/-- The mean of the load is added to the samples of the memory. -/
theorem memory_is_no_mean : ∃ result, getMetrics loadThenMemory hostInit = some result ∧
    result.ramUsageTotalAverage = 70 ∧ ¬ loadThenMemory.Reports ramUsage result := by
  refine ⟨_, rfl, ?_, fun reports => ?_⟩
  · decide +kernel
  · have mean := reports [_] _ [] rfl ⟨rfl, rfl⟩ (by decide) (by simp)
    revert mean
    decide +kernel

end Hpvc.Monitor
