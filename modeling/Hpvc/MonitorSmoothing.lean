import Hpvc.MonitorMachines

/-! The averages of memory usages, with integers that wrap around. -/
namespace Hpvc.Monitor

/-- The memory usages of a host and of its machines. -/
def usages (h : HostMetric) : List Int :=
  h.ramUsageTotalAverage :: h.machines.map MachineMetric.ramUsageTotalAverage

/-- A value between two others, or one of them. -/
def Between (a b z : Int) : Prop := min a b ≤ z ∧ z ≤ max a b

/-- A report for a host that is stored goes in, and each average stays between the stored value and the
reported one. -/
def StaysBetween (hosts : List HostMetric) (msg : Option HostMetric) : Prop :=
  ∀ report k old, msg = some report → findHost hosts report.ip = .ok (some k) → hosts[k]? = some old →
    ∃ result, setHostUtilityWrapped hosts msg = .ok (hosts.set k result) ∧
      ∀ (i : Nat) (stored reported : Int), (usages old)[i]? = some stored → (usages report)[i]? = some reported →
        ∃ z, (usages result)[i]? = some z ∧ Between stored reported z

/-- The sum without its multiples of 2^32: it is an `int` and not too small, or the lower value is 0 and
the sum wraps around to a number that the division makes 0. -/
def SumHarmless (old new : Int) : Prop :=
  let sum := ((averageRate - 1) * new + old) % 2 ^ 32
  (sum < 2 ^ 31 ∧ averageRate * min old new ≤ sum) ∨ (min old new = 0 ∧ 2 ^ 32 - averageRate < sum)

def Harmless (hosts : List HostMetric) (msg : Option HostMetric) : Prop :=
  ∀ report k old, msg = some report → findHost hosts report.ip = .ok (some k) → hosts[k]? = some old →
    ∀ (i : Nat) (stored reported : Int), (usages old)[i]? = some stored → (usages report)[i]? = some reported →
      SumHarmless stored reported

def InUsageRange (z : Int) : Prop := 0 ≤ z ∧ z < 2 ^ 31

theorem wrapInt_eq (z : Int) :
    wrapInt z = if z % 2 ^ 32 < 2 ^ 31 then z % 2 ^ 32 else z % 2 ^ 32 - 2 ^ 32 := rfl

theorem wrapInt_add (a b : Int) : wrapInt (wrapInt a + b) = wrapInt (a + b) := Int.bmod_add_bmod

theorem wrappedSmoothInt_between {old new : Int} (stored : InUsageRange old) (reported : InUsageRange new) :
    Between old new (wrappedSmoothInt old new) ↔ SumHarmless old new := by
  obtain ⟨old_low, old_high⟩ := stored
  obtain ⟨new_low, new_high⟩ := reported
  have nonneg : 0 ≤ ((averageRate - 1) * new + old) % 2 ^ 32 := Int.emod_nonneg _ (by decide)
  have below : ((averageRate - 1) * new + old) % 2 ^ 32 < 2 ^ 32 := Int.emod_lt_of_pos _ (by decide)
  have least : ((averageRate - 1) * new + old) % 2 ^ 32 ≤ (averageRate - 1) * new + old := by
    unfold averageRate
    omega
  rw [wrappedSmoothInt,wrapInt_add,wrapInt_eq,SumHarmless]
  generalize ((averageRate - 1) * new + old) % 2 ^ 32 = sum at nonneg below least ⊢
  unfold averageRate at *
  by_cases fits : sum < 2 ^ 31
  · rw [if_pos fits,Int.tdiv_eq_ediv_of_nonneg nonneg]
    unfold Between
    omega
  · have negative : (sum - 2 ^ 32).tdiv 9 = -((2 ^ 32 - sum) / 9) := by
      rw [← Int.neg_sub,Int.neg_tdiv,Int.tdiv_eq_ediv_of_nonneg (by omega)]
    rw [if_neg fits,negative]
    unfold Between
    omega

/-- A sum that is an `int`. -/
theorem sumHarmless_fits {old new : Int} (stored : 0 ≤ old) (reported : 0 ≤ new)
    (fits : (averageRate - 1) * new + old < 2 ^ 31) : SumHarmless old new := by
  unfold SumHarmless averageRate at *
  omega

/-- A stored machine with the values of one of the report. -/
def creditWrapped (m own : MachineMetric) : MachineMetric where
  ip := own.ip
  uuid := m.uuid
  cpu := own.cpu
  cpuLoadUsage := smooth m.cpuLoadUsage own.cpuLoadUsage
  ram := own.ram
  ramUsageTotalAverage := wrappedSmoothInt m.ramUsageTotalAverage own.ramUsageTotalAverage

/-- The same for a host whose machines are listed as they are stored. -/
def creditHostWrapped (old report : HostMetric) : HostMetric := { report with
  cpuLoadUsage := smooth old.cpuLoadUsage report.cpuLoadUsage
  ramUsageTotalAverage := wrappedSmoothInt old.ramUsageTotalAverage report.ramUsageTotalAverage
  machines := List.zipWith creditWrapped old.machines report.machines }

theorem creditHostWrapped_uuids {old report : HostMetric}
    (same : old.machines.map (·.uuid) = report.machines.map (·.uuid)) :
    (creditHostWrapped old report).machines.map (·.uuid) = old.machines.map (·.uuid) := by
  have lengths := congrArg List.length same
  simp only [List.length_map] at lengths
  apply List.ext_getElem <;> simp [creditHostWrapped,creditWrapped,lengths]

/-- The machine of the report at `early.length`, stored at the same index. -/
theorem updateMachinesBy_aligned {early late done rest : List MachineMetric} {m r : MachineMetric}
    (lengths : done.length = early.length) (same : m.uuid = r.uuid) (ip : r.ip ≠ none)
    (present : none ∉ (done ++ m :: rest).map (·.uuid)) (distinct : ((done ++ m :: rest).map (·.uuid)).Nodup) :
    updateMachinesBy wrappedAverage (early ++ r :: late) (done ++ m :: rest) r =
      .ok (done ++ creditWrapped m r :: rest) := by
  have at_m : (done ++ m :: rest)[done.length]? = some m := by simp
  have at_r : (early ++ r :: late)[done.length]? = some r := by simp [lengths]
  obtain ⟨p, m', searched, at_p, is⟩ := @search_stored _ present r.uuid (by simp [same])
  obtain rfl := index_unique distinct at_p at_m (is.trans same.symm)
  obtain ⟨address, present⟩ := Option.ne_none_iff_exists'.mp ip
  unfold updateMachinesBy
  rw [searched]
  simp [bind,Except.bind,pure,Except.pure,at_r,updateMachineBy,wrappedAverage,present,
    creditWrapped]

/-- The loop over the machines of a report. -/
theorem machines_aligned (late : List MachineMetric) {early done rest : List MachineMetric}
    (lengths : done.length = early.length) (same : rest.map (·.uuid) = late.map (·.uuid))
    (ips : ∀ r ∈ late, r.ip ≠ none) (present : none ∉ (done ++ rest).map (·.uuid))
    (distinct : ((done ++ rest).map (·.uuid)).Nodup) :
    late.foldlM (updateMachinesBy wrappedAverage (early ++ late)) (done ++ rest) =
      .ok (done ++ List.zipWith creditWrapped rest late) := by
  induction late generalizing early done rest with
  | nil =>
    cases List.map_eq_nil_iff.mp same
    simp [pure,Except.pure]
  | cons r late ih =>
    obtain ⟨m, rest, rfl⟩ : ∃ m tail, rest = m :: tail := List.exists_cons_of_ne_nil (by
      rintro rfl
      cases same)
    obtain ⟨uuid, others⟩ := List.cons.inj same
    obtain ⟨ip, ips⟩ := List.forall_mem_cons.mp ips
    have kept : ((done ++ [creditWrapped m r]) ++ rest).map (·.uuid) = (done ++ m :: rest).map (·.uuid) := by
      simp [creditWrapped]
    have later := @ih (early ++ [r]) (done ++ [creditWrapped m r]) rest (by simp [lengths]) others ips
      (kept ▸ present) (kept ▸ distinct)
    rw [List.append_assoc,List.append_assoc] at later
    rw [List.foldlM_cons,updateMachinesBy_aligned lengths uuid ip present distinct]
    exact later.trans (by simp)

theorem updateHost_aligned {old report : HostMetric}
    (same : old.machines.map (·.uuid) = report.machines.map (·.uuid))
    (complete : ∀ m ∈ report.machines, m.ip ≠ none ∧ m.uuid ≠ none)
    (distinct : (report.machines.map (·.uuid)).Nodup) :
    updateHostBy wrappedAverage old report = .ok (creditHostWrapped old report) := by
  have present : none ∉ old.machines.map (·.uuid) := fun member => by
    rw [same] at member
    obtain ⟨m, inside, none⟩ := List.mem_map.mp member
    exact (complete m inside).2 none
  have loop := @machines_aligned report.machines [] [] old.machines rfl same
    (fun m inside => (complete m inside).1) present (same ▸ distinct)
  simp only [List.nil_append] at loop
  simp only [updateHostBy,wrappedAverage,loop,bind,Except.bind]
  rfl

/-- Complete reports in which each host lists the same machines every time, each of them once. -/
structure Regular (reports : List HostMetric) : Prop where
  complete : Complete reports
  steady : Steady reports
  distinct : ∀ r ∈ reports, (r.machines.map (·.uuid)).Nodup

/-- A report is appended, or credited to its host and to its machines. -/
theorem report_outcome {reports hosts : List HostMetric} (regular : Regular reports)
    (updatable : Updatable reports hosts) {r : HostMetric} (member : r ∈ reports) :
    (findHost hosts r.ip = .ok none ∧ setHostUtilityWrapped hosts (some r) = .ok (hosts ++ [r])) ∨
      ∃ k old, findHost hosts r.ip = .ok (some k) ∧ hosts[k]? = some old ∧ old.ip = r.ip ∧
        setHostUtilityWrapped hosts (some r) = .ok (hosts.set k (creditHostWrapped old r)) := by
  obtain ⟨ip, machines⟩ := regular.complete r member
  obtain ⟨found, searched⟩ := searchString_fine HostMetric.ip ip (l := hosts)
    fun h inside => (updatable h inside).1
  unfold setHostUtilityWrapped setHostUtilityBy
  rcases searchString_ok searched with ⟨rfl, _⟩ | ⟨before, old, after, rfl, rfl, is, _⟩
  · refine .inl ⟨searched, ?_⟩
    simp only [findHost,searched,bind,Except.bind]
    rfl
  · have same := (updatable old (by simp)).2 r member is.symm
    refine .inr ⟨before.length, old, searched, by simp, is, ?_⟩
    simp [findHost,searched,updateHost_aligned same machines (regular.distinct r member),bind,Except.bind,pure,
      Except.pure]

/-- Every report can still update the table after one of them. -/
theorem Updatable.wrapped {reports hosts next : List HostMetric} (updatable : Updatable reports hosts)
    (regular : Regular reports) {r : HostMetric} (member : r ∈ reports)
    (taken : setHostUtilityWrapped hosts (some r) = .ok next) : Updatable reports next := by
  have own : ∀ r' ∈ reports, r'.ip = r.ip → r.machines.map (·.uuid) = r'.machines.map (·.uuid) :=
    fun r' inside same => regular.steady r member r' inside same.symm
  rcases report_outcome regular updatable member with ⟨_, appended⟩ | ⟨k, old, _, entry, is, credited⟩
  · cases appended.symm.trans taken
    intro h inside
    rcases List.mem_append.mp inside with stored | new
    · exact updatable h stored
    · cases List.mem_singleton.mp new
      exact ⟨(regular.complete r member).1, own⟩
  · cases credited.symm.trans taken
    intro h inside
    rcases List.mem_or_eq_of_mem_set inside with stored | rfl
    · exact updatable h stored
    · have same := (updatable old (List.mem_of_getElem? entry)).2 r member is.symm
      have uuids := (creditHostWrapped_uuids same).trans same
      exact ⟨(regular.complete r member).1, fun r' inside same => uuids.trans (own r' inside same)⟩

theorem usages_creditHostWrapped (old report : HostMetric) :
    usages (creditHostWrapped old report) = List.zipWith wrappedSmoothInt (usages old) (usages report) := by
  simp [usages,creditHostWrapped,List.map_zipWith,List.zipWith_map,creditWrapped]

theorem usages_credited {old report : HostMetric} {i : Nat} {stored reported : Int}
    (at_stored : (usages old)[i]? = some stored) (at_reported : (usages report)[i]? = some reported) :
    (usages (creditHostWrapped old report))[i]? = some (wrappedSmoothInt stored reported) := by
  rw [usages_creditHostWrapped,List.getElem?_zipWith,at_stored,at_reported]

/-- Every usage is a number of the range. -/
def Ranged (hosts : List HostMetric) : Prop := ∀ h ∈ hosts, ∀ u ∈ usages h, InUsageRange u

/-- One update keeps the averages between their inputs exactly where all its sums are harmless. -/
theorem staysBetween_iff {reports hosts : List HostMetric} (regular : Regular reports) (ranged : Ranged reports)
    (updatable : Updatable reports hosts) (stored : Ranged hosts) {msg : Option HostMetric}
    (among : ∀ r, msg = some r → r ∈ reports) : StaysBetween hosts msg ↔ Harmless hosts msg := by
  refine forall_congr' fun r => forall_congr' fun k => forall_congr' fun old => forall_congr' fun is =>
    forall_congr' fun searched => forall_congr' fun entry => ?_
  subst is
  have member := among r rfl
  have average {i : Nat} {o n : Int} (at_o : (usages old)[i]? = some o) (at_n : (usages r)[i]? = some n) :
      (usages (creditHostWrapped old r))[i]? = some (wrappedSmoothInt o n) ∧
        (Between o n (wrappedSmoothInt o n) ↔ SumHarmless o n) := by
    refine ⟨usages_credited at_o at_n, ?_⟩
    exact wrappedSmoothInt_between (stored old (List.mem_of_getElem? entry) o (List.mem_of_getElem? at_o))
      (ranged r member n (List.mem_of_getElem? at_n))
  rcases report_outcome regular updatable member with ⟨missing, _⟩ | ⟨k', old', found, entry', _, credited⟩
  · cases missing.symm.trans searched
  · cases found.symm.trans searched
    cases entry'.symm.trans entry
    constructor
    · rintro ⟨result, taken, between⟩ i o n at_o at_n
      obtain rfl := set_injective entry (Except.ok.inj (credited.symm.trans taken))
      obtain ⟨z, at_z, within⟩ := between i o n at_o at_n
      obtain ⟨at_average, exact⟩ := average at_o at_n
      cases at_average.symm.trans at_z
      exact exact.mp within
    · intro harmless
      refine ⟨_, credited, fun i o n at_o at_n => ?_⟩
      obtain ⟨at_average, exact⟩ := average at_o at_n
      exact ⟨_, at_average, exact.mpr (harmless i o n at_o at_n)⟩

theorem Between.ranged {a b z : Int} (between : Between a b z) (first : InUsageRange a)
    (second : InUsageRange b) : InUsageRange z := by
  unfold Between InUsageRange at *
  omega

/-- Averages that stay between their inputs are in the range. -/
theorem ranged_step {reports hosts next : List HostMetric} (regular : Regular reports) (ranged : Ranged reports)
    (updatable : Updatable reports hosts) (stored : Ranged hosts) {r : HostMetric} (member : r ∈ reports)
    (between : StaysBetween hosts (some r)) (taken : setHostUtilityWrapped hosts (some r) = .ok next) :
    Ranged next := by
  rcases report_outcome regular updatable member with ⟨_, appended⟩ | ⟨k, old, found, entry, _, credited⟩
  · cases appended.symm.trans taken
    intro h inside
    rcases List.mem_append.mp inside with early | new
    · exact stored h early
    · cases List.mem_singleton.mp new
      exact ranged r member
  · obtain ⟨result, put, within⟩ := between r k old rfl found entry
    cases put.symm.trans taken
    obtain rfl := set_injective entry (Except.ok.inj (put.symm.trans credited))
    intro h inside
    rcases List.mem_or_eq_of_mem_set inside with early | rfl
    · exact stored h early
    · intro u is
      obtain ⟨i, at_u⟩ := List.mem_iff_getElem?.mp is
      rw [usages_creditHostWrapped,List.getElem?_zipWith_eq_some] at at_u
      obtain ⟨o, n, at_o, at_n, made⟩ := at_u
      obtain ⟨z, at_z, between⟩ := within i o n at_o at_n
      cases (usages_credited at_o at_n).symm.trans at_z
      subst made
      exact between.ranged (stored old (List.mem_of_getElem? entry) o (List.mem_of_getElem? at_o))
        (ranged r member n (List.mem_of_getElem? at_n))

/-- In every run of reports the averages stay between their inputs exactly where all sums are harmless. -/
theorem averages_between_iff {messages : List (Option HostMetric)} (regular : Regular (reports messages))
    (ranged : Ranged (reports messages)) :
    Runs.Each stepWrapped [] messages StaysBetween ↔ Runs.Each stepWrapped [] messages Harmless := by
  have among : ∀ msg ∈ messages, ∀ r, msg = some r → r ∈ reports messages := fun msg inside r is =>
    List.mem_filterMap.mpr ⟨msg, inside, is⟩
  refine Runs.each_iff (fun hosts => Updatable (reports messages) hosts ∧ Ranged hosts)
    (fun _ msg => ∀ r, msg = some r → r ∈ reports messages)
    (fun hosts msg ⟨updatable, stored⟩ among => staysBetween_iff regular ranged updatable stored among) ?_
    ⟨by simp [Updatable], by simp [Ranged]⟩ messages ?_
  · rintro hosts msg next ⟨updatable, stored⟩ among between taken
    have taken := stepWrapped_ok.mp taken
    cases msg with
    | none =>
      cases taken
      exact ⟨updatable, stored⟩
    | some r =>
      exact ⟨updatable.wrapped regular (among r rfl) taken,
        ranged_step regular ranged updatable stored (among r rfl) between taken⟩
  · intro past msg rest mid split _
    exact among msg (by simp [split])

theorem averages_between_interleaved : Runs.Each stepWrapped [] interleavedReports StaysBetween := by
  have regular : Regular (reports interleavedReports) := by
    constructor <;> simp [Complete,Steady,reports,interleavedReports]
  have ranged : Ranged (reports interleavedReports) := by
    simp [Ranged,reports,interleavedReports,usages,InUsageRange]
  refine (averages_between_iff regular ranged).mpr ?_
  refine Runs.each_cons.mpr ⟨fun r k old is searched => ?_, fun next taken => ?_⟩
  · cases is
    cases searched
  · cases taken
    refine Runs.each_cons.mpr ⟨fun r k old is searched => ?_, fun next taken => ?_⟩
    · cases is
      cases searched
    · cases taken
      refine Runs.each_cons.mpr ⟨fun r k old is searched entry i o n at_o at_n => ?_,
        fun _ _ => Runs.each_nil _ _ _⟩
      cases is
      cases searched
      cases entry
      rcases i with _ | _ | i
      · cases at_o
        cases at_n
        exact sumHarmless_fits (by decide) (by decide) (by decide)
      · cases at_o
        cases at_n
        exact sumHarmless_fits (by decide) (by decide) (by decide)
      · cases at_o

/-- A host that uses this much memory, in kilobytes. -/
def hostUsing (ramUsage : Int) : HostMetric := ⟨some "10.0.0.1", 4, 2, 1 / 2, 536870912, ramUsage, []⟩

/-- Two reports of 256 GiB, and the average is negative. -/
theorem averages_between_negative :
    Regular [hostUsing 268435456, hostUsing 268435456] ∧ Ranged [hostUsing 268435456, hostUsing 268435456] ∧
      ((Runs.run stepWrapped [] [some (hostUsing 268435456), some (hostUsing 268435456)]).map fun hosts =>
        hosts.map HostMetric.ramUsageTotalAverage) = some [-208783132] ∧
      ¬ Runs.Each stepWrapped [] [some (hostUsing 268435456), some (hostUsing 268435456)] StaysBetween := by
  have regular : Regular [hostUsing 268435456, hostUsing 268435456] := by
    constructor <;> simp [Complete,Steady,hostUsing]
  have ranged : Ranged [hostUsing 268435456, hostUsing 268435456] := by
    simp [Ranged,hostUsing,usages,InUsageRange]
  refine ⟨regular, ranged, by decide, fun all => ?_⟩
  obtain ⟨result, taken, between⟩ := all [some (hostUsing 268435456)] (some (hostUsing 268435456)) []
    [hostUsing 268435456] rfl rfl (hostUsing 268435456) 0 (hostUsing 268435456) rfl rfl rfl
  cases taken
  obtain ⟨z, at_z, low, _⟩ := between 0 268435456 268435456 rfl rfl
  cases at_z
  exact absurd low (by decide)

/-- The averages that reports of `r` make of `s`. -/
def averageAfter (r s : Int) : Nat → Int
  | 0 => s
  | n + 1 => wrappedSmoothInt (averageAfter r s n) r

/-- Values that go towards `r` without passing it, end within 1 of it, and from above reach it. -/
structure Follows (r : Int) (stored : Nat → Int) : Prop where
  rising : stored 0 ≤ r → ∀ n, stored n ≤ stored (n + 1) ∧ stored (n + 1) ≤ r
  falling : r ≤ stored 0 → ∀ n, r ≤ stored (n + 1) ∧ stored (n + 1) ≤ stored n
  near : ∃ turn, ∀ n, turn ≤ n → r - 1 ≤ stored n ∧ stored n ≤ r + 1
  reached : r ≤ stored 0 → ∃ turn, ∀ n, turn ≤ n → stored n = r

/-- The sum is an `int`. -/
theorem wrappedSmoothInt_fits {old new : Int} (stored : 0 ≤ old) (reported : 0 ≤ new)
    (fits : (averageRate - 1) * new + old < 2 ^ 31) :
    wrappedSmoothInt old new = ((averageRate - 1) * new + old) / averageRate := by
  have nonneg : 0 ≤ (averageRate - 1) * new + old := by
    unfold averageRate
    omega
  have small : ((averageRate - 1) * new + old) % 2 ^ 32 = (averageRate - 1) * new + old := by omega
  rw [wrappedSmoothInt,wrapInt_add,wrapInt_eq,small,if_pos fits,Int.tdiv_eq_ediv_of_nonneg nonneg]

/-- Natural numbers that decrease while they are above a bound, and stay below it. -/
theorem settles {f : Nat → Nat} {bound : Nat} (nearer : ∀ n, bound < f n → f (n + 1) < f n)
    (stays : ∀ n, f n ≤ bound → f (n + 1) ≤ bound) {n : Nat} (late : f 0 ≤ n) : f n ≤ bound := by
  have soFar (n : Nat) : f n ≤ bound ∨ f n + n ≤ f 0 := by
    induction n with
    | zero => exact .inr (Nat.le_refl _)
    | succ n ih =>
      have nearer := nearer n
      have stays := stays n
      omega
  have soFar := soFar n
  omega

/-- Between bounds for `r` and `s` the averages stay, and their sums are an `int`. -/
theorem averageAfter_within {r s low high : Int} (nonneg : 0 ≤ low) (reported : low ≤ r ∧ r ≤ high)
    (start : low ≤ s ∧ s ≤ high) (fits : (averageRate - 1) * r + high < 2 ^ 31) (n : Nat) :
    (low ≤ averageAfter r s n ∧ averageAfter r s n ≤ high) ∧
      averageAfter r s (n + 1) = ((averageRate - 1) * r + averageAfter r s n) / averageRate := by
  have next (n : Nat) (inside : low ≤ averageAfter r s n ∧ averageAfter r s n ≤ high) :
      averageAfter r s (n + 1) = ((averageRate - 1) * r + averageAfter r s n) / averageRate := by
    refine wrappedSmoothInt_fits (Int.le_trans nonneg inside.1) (Int.le_trans nonneg reported.1) ?_
    omega
  have inside (n : Nat) : low ≤ averageAfter r s n ∧ averageAfter r s n ≤ high := by
    induction n with
    | zero => exact start
    | succ n ih =>
      rw [next n ih]
      unfold averageRate
      omega
  exact ⟨inside n, next n (inside n)⟩

theorem averageAfter_below {r s : Int} (start : 0 ≤ s) (later : averageRate * r < 2 ^ 31) (below : s ≤ r)
    (n : Nat) : (0 ≤ averageAfter r s n ∧ averageAfter r s n ≤ r) ∧
      averageAfter r s (n + 1) = ((averageRate - 1) * r + averageAfter r s n) / averageRate := by
  have fits : (averageRate - 1) * r + r < 2 ^ 31 := by
    unfold averageRate at *
    omega
  exact averageAfter_within (Int.le_refl 0) ⟨Int.le_trans start below, Int.le_refl r⟩ ⟨start, below⟩ fits n

theorem averageAfter_above {r s : Int} (reported : 0 ≤ r) (first : (averageRate - 1) * r + s < 2 ^ 31)
    (above : r ≤ s) (n : Nat) : (r ≤ averageAfter r s n ∧ averageAfter r s n ≤ s) ∧
      averageAfter r s (n + 1) = ((averageRate - 1) * r + averageAfter r s n) / averageRate :=
  averageAfter_within reported ⟨Int.le_refl r, above⟩ ⟨above, Int.le_refl s⟩ first n

/-- From below the distance shrinks down to 1, and a distance of 1 may stay. -/
theorem averageAfter_nears {r s : Int} (start : 0 ≤ s) (later : averageRate * r < 2 ^ 31) (below : s ≤ r) :
    ∃ turn, ∀ n, turn ≤ n → r - 1 ≤ averageAfter r s n := by
  refine ⟨(r - s).toNat, fun n late => ?_⟩
  have distance : (r - averageAfter r s n).toNat ≤ 1 := by
    refine @settles (fun n => (r - averageAfter r s n).toNat) 1 (fun n far => ?_) (fun n close => ?_) n late
    all_goals
      obtain ⟨⟨_, high⟩, next⟩ := averageAfter_below start later below n
      rw [next]
      unfold averageRate
      omega
  omega

/-- From above it shrinks to nothing. -/
theorem averageAfter_reaches {r s : Int} (reported : 0 ≤ r) (first : (averageRate - 1) * r + s < 2 ^ 31)
    (above : r ≤ s) : ∃ turn, ∀ n, turn ≤ n → averageAfter r s n = r := by
  refine ⟨(s - r).toNat, fun n late => ?_⟩
  have distance : (averageAfter r s n - r).toNat ≤ 0 := by
    refine @settles (fun n => (averageAfter r s n - r).toNat) 0 (fun n far => ?_) (fun n close => ?_) n late
    all_goals
      obtain ⟨⟨low, _⟩, next⟩ := averageAfter_above reported first above n
      rw [next]
      unfold averageRate
      omega
  obtain ⟨⟨low, _⟩, _⟩ := averageAfter_above reported first above n
  omega

theorem averageAfter_follows {r s : Int} (start : 0 ≤ s) (reported : 0 ≤ r)
    (first : (averageRate - 1) * r + s < 2 ^ 31) (later : averageRate * r < 2 ^ 31) :
    Follows r (averageAfter r s) where
  rising below n := by
    obtain ⟨⟨_, high⟩, next⟩ := averageAfter_below start later below n
    rw [next]
    unfold averageRate
    omega
  falling above n := by
    obtain ⟨⟨low, _⟩, next⟩ := averageAfter_above reported first above n
    rw [next]
    unfold averageRate
    omega
  near := by
    rcases Int.le_total s r with below | above
    · obtain ⟨turn, near⟩ := averageAfter_nears start later below
      refine ⟨turn, fun n late => ⟨near n late, ?_⟩⟩
      obtain ⟨⟨_, high⟩, _⟩ := averageAfter_below start later below n
      omega
    · obtain ⟨turn, exact⟩ := averageAfter_reaches reported first above
      refine ⟨turn, fun n late => ?_⟩
      have exact := exact n late
      omega
  reached above := averageAfter_reaches reported first above

/-- Reports, one after the other, of a usage `r` of the host stored at `k`, which list its machines as they
are stored. -/
structure SteadyLoad (hosts : List HostMetric) (k : Nat) (old : HostMetric) (r : Int) (load : Nat → HostMetric) :
    Prop where
  found : ∀ n, findHost hosts (load n).ip = .ok (some k)
  entry : hosts[k]? = some old
  complete : ∀ n, ∀ m ∈ (load n).machines, m.ip ≠ none ∧ m.uuid ≠ none
  machines : ∀ n, old.machines.map (·.uuid) = (load n).machines.map (·.uuid)
  distinct : (old.machines.map (·.uuid)).Nodup
  usage : ∀ n, (load n).ramUsageTotalAverage = r

/-- The first `n` reports. -/
def firstReports (load : Nat → HostMetric) (n : Nat) : List (Option HostMetric) :=
  (List.range n).map fun i => some (load i)

theorem found_ip {hosts : List HostMetric} {k : Nat} {old : HostMetric} {ip : Option String}
    (found : findHost hosts ip = .ok (some k)) (entry : hosts[k]? = some old) : old.ip = ip := by
  rcases searchString_ok found with ⟨none, _⟩ | ⟨before, x, after, rfl, at_x, is, _⟩
  · contradiction
  · cases at_x
    simp only [List.getElem?_append_right (Nat.le_refl _),Nat.sub_self,
      List.getElem?_cons_zero,Option.some.injEq] at entry
    exact entry ▸ is

/-- One report of the load. -/
theorem SteadyLoad.step {hosts : List HostMetric} {k : Nat} {old : HostMetric} {r : Int} {load : Nat → HostMetric}
    (steady : SteadyLoad hosts k old r load) (n : Nat) :
    stepWrapped hosts (some (load n)) = some (hosts.set k (creditHostWrapped old (load n))) ∧
      SteadyLoad (hosts.set k (creditHostWrapped old (load n))) k (creditHostWrapped old (load n)) r load := by
  have same := steady.machines n
  have uuids := creditHostWrapped_uuids same
  have updated := updateHost_aligned same (steady.complete n) (same ▸ steady.distinct)
  have bound := (List.getElem?_eq_some_iff.mp steady.entry).1
  have ips : (hosts.set k (creditHostWrapped old (load n))).map HostMetric.ip = hosts.map HostMetric.ip := by
    apply List.ext_getElem?
    intro j
    rw [List.getElem?_map,List.getElem?_map,List.getElem?_set]
    split
    next here =>
      subst here
      rw [steady.entry]
      exact congrArg some (found_ip (steady.found n) steady.entry).symm
    next => rfl
  constructor
  · rw [stepWrapped_ok,setHostUtilityWrapped,setHostUtilityBy]
    simp [steady.found n,steady.entry,updated,bind,Except.bind,pure,Except.pure]
  · refine ⟨fun i => ?_, List.getElem?_set_self bound, steady.complete, fun i => ?_, ?_, steady.usage⟩
    · rw [findHost,searchString_congr ips]
      exact steady.found i
    · exact uuids.trans (steady.machines i)
    · exact uuids ▸ steady.distinct

/-- The load goes in, and makes the averages. -/
theorem SteadyLoad.run {hosts : List HostMetric} {k : Nat} {old : HostMetric} {r : Int} {load : Nat → HostMetric}
    (steady : SteadyLoad hosts k old r load) (n : Nat) :
    ∃ table entry, Runs.run stepWrapped hosts (firstReports load n) = some table ∧
      SteadyLoad table k entry r load ∧ entry.ramUsageTotalAverage = averageAfter r old.ramUsageTotalAverage n := by
  induction n with
  | zero => exact ⟨hosts, old, rfl, steady, rfl⟩
  | succ n ih =>
    obtain ⟨table, entry, reached, good, average⟩ := ih
    obtain ⟨taken, good'⟩ := good.step n
    refine ⟨_, _, ?_, good', ?_⟩
    · rw [firstReports,List.range_succ,List.map_append,List.map_singleton,Runs.run_snoc,← firstReports,reached]
      exact taken
    · rw [averageAfter,← average,← steady.usage n]
      rfl

/-- Under a steady load the stored averages follow it. -/
theorem steady_load_followed {hosts : List HostMetric} {k : Nat} {old : HostMetric} {r : Int}
    {load : Nat → HostMetric} (steady : SteadyLoad hosts k old r load) (start : 0 ≤ old.ramUsageTotalAverage)
    (reported : 0 ≤ r) (first : (averageRate - 1) * r + old.ramUsageTotalAverage < 2 ^ 31)
    (later : averageRate * r < 2 ^ 31) :
    ∃ stored : Nat → Int, stored 0 = old.ramUsageTotalAverage ∧ Follows r stored ∧
      ∀ n, ∃ table entry, Runs.run stepWrapped hosts (firstReports load n) = some table ∧ table[k]? = some entry ∧
        entry.ramUsageTotalAverage = stored n := by
  refine ⟨averageAfter r old.ramUsageTotalAverage, rfl, averageAfter_follows start reported first later,
    fun n => ?_⟩
  obtain ⟨table, entry, reached, good, average⟩ := steady.run n
  exact ⟨table, entry, reached, good.entry, average⟩

theorem steady_load_followed_four : ∃ stored : Nat → Int, stored 0 = 30 ∧ Follows 4 stored ∧
    ∀ n, ∃ table entry, Runs.run stepWrapped [hostUsing 30] (firstReports (fun _ => hostUsing 4) n) = some table ∧
      table[0]? = some entry ∧ entry.ramUsageTotalAverage = stored n := by
  have steady : SteadyLoad [hostUsing 30] 0 (hostUsing 30) 4 fun _ => hostUsing 4 := by
    constructor <;> simp [hostUsing,findHost,searchString,strEq,bind,Except.bind,pure,Except.pure]
  exact steady_load_followed steady (by decide) (by decide) (by decide) (by decide)

end Hpvc.Monitor
