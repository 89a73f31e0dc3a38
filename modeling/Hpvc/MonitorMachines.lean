import Hpvc.MonitorTable
import Mathlib.Tactic.Linarith

/-! The machines of a host that reports again. A reported machine is looked up by its uuid, and the
index at which it is stored also chooses the machine of the report whose values are taken. The average
of two integers is a parameter. -/
namespace Hpvc.Monitor

/-- The value of an `int` expression. -/
def wrapInt (z : Int) : Int := Int.bmod z (2 ^ 32)

/-- `((AVERAGE_RATE-1)*new + old) / AVERAGE_RATE`, where product and sum wrap around. -/
def wrappedSmoothInt (old new : Int) : Int :=
  (wrapInt (wrapInt ((averageRate - 1) * new) + old)).tdiv averageRate

def wrappedAverage (old new : Int) : Except Fault Int := .ok (wrappedSmoothInt old new)

section By
variable (average : Int → Int → Except Fault Int)

def updateMachineBy (old new : MachineMetric) : Except Fault MachineMetric := do
  let ramUsage ← average old.ramUsageTotalAverage new.ramUsageTotalAverage
  match new.ip with
  | none => throw .nullString
  | some ip => return { old with
      cpuLoadUsage := smooth old.cpuLoadUsage new.cpuLoadUsage
      ramUsageTotalAverage := ramUsage
      cpu := new.cpu
      ram := new.ram
      ip := some ip }

def updateMachinesBy (reported machines : List MachineMetric) (new : MachineMetric) :
    Except Fault (List MachineMetric) := do
  match ← searchString MachineMetric.uuid new.uuid machines with
  | none => throw .pastArray
  | some j =>
    match machines[j]?, reported[j]? with
    | some old, some own => return machines.set j (← updateMachineBy average old own)
    | _, _ => throw .pastArray

def updateHostBy (old new : HostMetric) : Except Fault HostMetric := do
  let ramUsage ← average old.ramUsageTotalAverage new.ramUsageTotalAverage
  let machines ← new.machines.foldlM (updateMachinesBy average new.machines) old.machines
  return {
    ip := new.ip
    cpu := new.cpu
    ram := new.ram
    corePerCpu := new.corePerCpu
    cpuLoadUsage := smooth old.cpuLoadUsage new.cpuLoadUsage
    ramUsageTotalAverage := ramUsage
    machines := machines }

def setHostUtilityBy (hosts : List HostMetric) : Option HostMetric → Except Fault (List HostMetric)
  | none => .ok hosts
  | some report => do
    match ← findHost hosts report.ip with
    | none => return hosts ++ [report]
    | some k =>
      match hosts[k]? with
      | none => return hosts
      | some old => return hosts.set k (← updateHostBy average old report)

end By

/-- With an average that stops at an overflow it is the table as it was. -/
theorem setHostUtilityBy_checked : setHostUtilityBy checkedSmoothInt = setHostUtility := rfl

/-- `set_host_utility` with integers that wrap around. -/
def setHostUtilityWrapped : List HostMetric → Option HostMetric → Except Fault (List HostMetric) :=
  setHostUtilityBy wrappedAverage

def stepWrapped (hosts : List HostMetric) (msg : Option HostMetric) : Option (List HostMetric) :=
  (setHostUtilityWrapped hosts msg).toOption

theorem stepWrapped_ok {hosts next : List HostMetric} {msg : Option HostMetric} :
    stepWrapped hosts msg = some next ↔ setHostUtilityWrapped hosts msg = .ok next := by
  unfold stepWrapped
  cases setHostUtilityWrapped hosts msg <;> simp [Except.toOption]

/-- The products and sums of an integer average stay in `int`. -/
def InRange (old new : Int) : Prop := IsInt ((averageRate - 1) * new) ∧ IsInt ((averageRate - 1) * new + old)

instance (old new : Int) : Decidable (InRange old new) := inferInstanceAs (Decidable (_ ∧ _))

theorem checkedSmoothInt_ok_iff {old new result : Int} :
    checkedSmoothInt old new = .ok result ↔ InRange old new ∧ result = smoothInt old new := by
  unfold checkedSmoothInt
  split
  next inRange => simp [InRange,inRange,eq_comm]
  next outside => simp [InRange,outside]

theorem bind_ok_iff {x : Except ε α} {f : α → Except ε β} {b : β} :
    x >>= f = .ok b ↔ ∃ a, x = .ok a ∧ f a = .ok b := by
  constructor
  · exact bind_ok
  · rintro ⟨a, rfl, applied⟩
    exact applied

/-- An average of two integers: what it is, and for which integers there is one. -/
structure Average where
  result : Int → Int → Except Fault Int
  inRange : Int → Int → Prop
  value : Int → Int → Int
  result_ok_iff : ∀ {old new average}, result old new = .ok average ↔ inRange old new ∧ average = value old new

/-- The average that stops at an overflow. -/
def checked : Average := ⟨checkedSmoothInt, InRange, smoothInt, checkedSmoothInt_ok_iff⟩

/-- The average that wraps around. -/
def wrapping : Average where
  result := wrappedAverage
  inRange _ _ := True
  value := wrappedSmoothInt
  result_ok_iff := by simp [wrappedAverage,eq_comm]

theorem stepWrapped_fresh {hosts : List HostMetric} {report : HostMetric}
    (searched : findHost hosts report.ip = .ok none) :
    stepWrapped hosts (some report) = some (hosts ++ [report]) := by
  rw [stepWrapped_ok,setHostUtilityWrapped,setHostUtilityBy]
  simp only [searched,bind,Except.bind]
  rfl

theorem stepWrapped_listed {before after next : List HostMetric} {old report : HostMetric}
    (searched : findHost (before ++ old :: after) report.ip = .ok (some before.length)) :
    stepWrapped (before ++ old :: after) (some report) = some next ↔
      ∃ result, updateHostBy wrapping.result old report = .ok result ∧ next = before ++ result :: after := by
  have update : setHostUtilityWrapped (before ++ old :: after) (some report) =
      updateHostBy wrapping.result old report >>= fun result => .ok (before ++ result :: after) := by
    simp [setHostUtilityWrapped,setHostUtilityBy,searched,wrapping,bind,Except.bind,pure,Except.pure]
  rw [stepWrapped_ok,update,bind_ok_iff]
  simp only [Except.ok.injEq,eq_comm]

section Average
variable {average : Average}

/-- A stored machine with the values of one of the report. -/
def credit (average : Average) (m own : MachineMetric) : MachineMetric where
  ip := own.ip
  uuid := m.uuid
  cpu := own.cpu
  cpuLoadUsage := smooth m.cpuLoadUsage own.cpuLoadUsage
  ram := own.ram
  ramUsageTotalAverage := average.value m.ramUsageTotalAverage own.ramUsageTotalAverage

/-- What becomes of the machine stored at `j` when machines with these uuids are reported. -/
def creditedAt (average : Average) (reported : List MachineMetric) (uuids : List (Option String)) (j : Nat)
    (m : MachineMetric) : MachineMetric :=
  if m.uuid ∈ uuids then reported[j]?.elim m (credit average m) else m

@[simp] theorem creditedAt_uuid (reported : List MachineMetric) (uuids : List (Option String)) (j : Nat)
    (m : MachineMetric) : (creditedAt average reported uuids j m).uuid = m.uuid := by
  unfold creditedAt
  split
  · cases reported[j]? <;> rfl
  · rfl

theorem creditedAt_other {reported : List MachineMetric} {uuids : List (Option String)} {j : Nat}
    {m : MachineMetric} (other : m.uuid ∉ uuids) : creditedAt average reported uuids j m = m := if_neg other

theorem creditedAt_own {reported : List MachineMetric} {uuids : List (Option String)} {j : Nat}
    {m own : MachineMetric} (member : m.uuid ∈ uuids) (is : reported[j]? = some own) :
    creditedAt average reported uuids j m = credit average m own := by
  rw [creditedAt,if_pos member,is]
  rfl

/-- A machine of the report has an ip, and its usage can be averaged with the stored one. -/
structure Creditable (average : Average) (m own : MachineMetric) : Prop where
  present : own.ip ≠ none
  inRange : average.inRange m.ramUsageTotalAverage own.ramUsageTotalAverage

theorem updateMachine_ok_iff {m own result : MachineMetric} :
    updateMachineBy average.result m own = .ok result ↔ Creditable average m own ∧ result = credit average m own := by
  simp only [updateMachineBy,bind_ok_iff,average.result_ok_iff]
  constructor
  · rintro ⟨_, ⟨inRange, rfl⟩, copied⟩
    cases ip : own.ip with
    | none =>
      rw [ip] at copied
      cases copied
    | some address =>
      rw [ip] at copied
      cases copied
      exact ⟨⟨by simp [ip], inRange⟩, by simp [credit,ip]⟩
  · rintro ⟨⟨present, inRange⟩, rfl⟩
    obtain ⟨ip, is⟩ := Option.ne_none_iff_exists'.mp present
    exact ⟨_, ⟨inRange, rfl⟩, by simp [is,credit,pure,Except.pure]⟩

/-- One machine of the report, stored at `p`. -/
theorem updateMachines_at {reported machines : List MachineMetric} {new m : MachineMetric} {p : Nat}
    (searched : searchString MachineMetric.uuid new.uuid machines = .ok (some p)) (is : machines[p]? = some m) :
    updateMachinesBy average.result reported machines new =
      reported[p]?.elim (.error .pastArray) fun own => (updateMachineBy average.result m own).map (machines.set p) := by
  unfold updateMachinesBy
  rw [searched]
  cases own : reported[p]? with
  | none => simp [bind,Except.bind,is,own]; rfl
  | some own' => simp [bind,Except.bind,is,own]; rfl

theorem set_injective {l : List α} {k : Nat} {old a b : α} (stored : l[k]? = some old)
    (same : l.set k a = l.set k b) : a = b := by
  have bound : k < l.length := (List.getElem?_eq_some_iff.mp stored).1
  have entry := congrArg (·[k]?) same
  simpa only [List.getElem?_set_self bound,Option.some.injEq] using entry

/-- A stored machine is at one index. -/
theorem index_unique {machines : List MachineMetric} (distinct : (machines.map (·.uuid)).Nodup) {i j : Nat}
    {m m' : MachineMetric} (first : machines[i]? = some m) (second : machines[j]? = some m')
    (same : m.uuid = m'.uuid) : i = j := by
  obtain ⟨bound, _⟩ := List.getElem?_eq_some_iff.mp first
  apply (List.getElem?_inj (by simpa using bound) distinct).mp
  simp [first,second,same]

/-- A reported uuid is found where it is stored. -/
theorem search_stored {machines : List MachineMetric} (present : none ∉ machines.map (·.uuid))
    {uuid : Option String} (stored : uuid ∈ machines.map (·.uuid)) :
    ∃ p m, searchString MachineMetric.uuid uuid machines = .ok (some p) ∧ machines[p]? = some m ∧
      m.uuid = uuid := by
  obtain ⟨m, member, is⟩ := List.mem_map.mp stored
  obtain ⟨found, searched⟩ := searchString_fine MachineMetric.uuid (fun none => present (none ▸ stored))
    (fun x inside none => present (none ▸ List.mem_map_of_mem (f := (·.uuid)) inside))
  rcases searchString_ok searched with ⟨_, others⟩ | ⟨before, m', after, rfl, rfl, same, _⟩
  · exact absurd is (others m member)
  · exact ⟨before.length, m', searched, by simp, same⟩

/-- Only a machine that is stored is taken in. -/
theorem updateMachines_stored {reported machines next : List MachineMetric} {new : MachineMetric}
    (updated : updateMachinesBy average.result reported machines new = .ok next) :
    new.uuid ∈ machines.map (·.uuid) := by
  obtain ⟨found, searched, rest⟩ := bind_ok updated
  rcases searchString_ok searched with ⟨rfl, _⟩ | ⟨before, old, after, rfl, rfl, same, _⟩
  · cases rest
  · simp [same]

/-- One machine of the report, exactly. -/
theorem updateMachines_ok_iff {reported machines next : List MachineMetric} {new m : MachineMetric} {p : Nat}
    (searched : searchString MachineMetric.uuid new.uuid machines = .ok (some p)) (is : machines[p]? = some m) :
    updateMachinesBy average.result reported machines new = .ok next ↔
      ∃ own, reported[p]? = some own ∧ Creditable average m own ∧ next = machines.set p (credit average m own) := by
  rw [updateMachines_at searched is]
  cases there : reported[p]? with
  | none => simp
  | some own =>
    have updated : (updateMachineBy average.result m own).map (machines.set p) =
        updateMachineBy average.result m own >>= fun result => .ok (machines.set p result) := by
      cases updateMachineBy average.result m own <;> rfl
    simp only [Option.elim,updated,bind_ok_iff,updateMachine_ok_iff,Option.some.injEq,exists_eq_left',
      Except.ok.injEq]
    constructor
    · rintro ⟨_, ⟨creditable, rfl⟩, rfl⟩
      exact ⟨creditable, rfl⟩
    · rintro ⟨creditable, rfl⟩
      exact ⟨_, ⟨creditable, rfl⟩, rfl⟩

/-- For the stored machines among those reported, the report has a machine to credit at the same index. -/
def Indexed (average : Average) (reported machines : List MachineMetric) (uuids : List (Option String)) : Prop :=
  ∀ (j : Nat) (m : MachineMetric), machines[j]? = some m → m.uuid ∈ uuids →
    ∃ own : MachineMetric, reported[j]? = some own ∧ Creditable average m own

section Credit
variable {reported machines : List MachineMetric} {m own : MachineMetric} {p : Nat} {uuids : List (Option String)}

/-- An update changes no uuid. -/
theorem set_credit_uuids (is : machines[p]? = some m) :
    (machines.set p (credit average m own)).map (·.uuid) = machines.map (·.uuid) := by
  apply List.ext_getElem?
  intro j
  rw [List.getElem?_map,List.getElem?_map,List.getElem?_set]
  split
  next here =>
    subst here
    rw [if_pos (List.getElem?_eq_some_iff.mp is).1,is]
    rfl
  next => rfl

theorem set_credit_get (is : machines[p]? = some m) (j : Nat) :
    (machines.set p (credit average m own))[j]? = if j = p then some (credit average m own) else machines[j]? := by
  rw [List.getElem?_set]
  by_cases here : p = j
  · subst here
    rw [if_pos rfl,if_pos rfl,if_pos (List.getElem?_eq_some_iff.mp is).1]
  · rw [if_neg here,if_neg (Ne.symm here)]

/-- After the machine at `p`, what is left to ask is about the others. -/
theorem indexed_set (distinct : (machines.map (·.uuid)).Nodup) (is : machines[p]? = some m)
    (fresh : m.uuid ∉ uuids) (there : reported[p]? = some own) (creditable : Creditable average m own) :
    Indexed average reported (machines.set p (credit average m own)) uuids ↔
      Indexed average reported machines (m.uuid :: uuids) := by
  constructor
  · intro indexed j x at_j listed
    by_cases here : j = p
    · subst here
      cases is.symm.trans at_j
      exact ⟨own, there, creditable⟩
    · refine indexed j x (by rw [set_credit_get is,if_neg here]; exact at_j) ?_
      exact (List.mem_cons.mp listed).resolve_left fun same => here (index_unique distinct at_j is same)
  · intro indexed j x at_j listed
    rw [set_credit_get is] at at_j
    split at at_j
    next =>
      cases at_j
      exact absurd listed fresh
    next => exact indexed j x at_j (List.mem_cons_of_mem _ listed)

theorem mapIdx_set (distinct : (machines.map (·.uuid)).Nodup) (is : machines[p]? = some m)
    (fresh : m.uuid ∉ uuids) (there : reported[p]? = some own) :
    (machines.set p (credit average m own)).mapIdx (creditedAt average reported uuids) =
      machines.mapIdx (creditedAt average reported (m.uuid :: uuids)) := by
  apply List.ext_getElem?
  intro j
  rw [List.getElem?_mapIdx,List.getElem?_mapIdx,set_credit_get is]
  split
  next here =>
    subst here
    have done : creditedAt average reported uuids j (credit average m own) = credit average m own :=
      creditedAt_other fresh
    rw [is,Option.map_some,Option.map_some,done,creditedAt_own List.mem_cons_self there]
  next other =>
    cases at_j : machines[j]? with
    | none => rfl
    | some x =>
      have differs : x.uuid ≠ m.uuid := fun same => other (index_unique distinct at_j is same)
      simp [creditedAt,differs]

end Credit

theorem updateMachines_uuids {reported machines next : List MachineMetric} {new : MachineMetric}
    (updated : updateMachinesBy average.result reported machines new = .ok next) :
    next.map (·.uuid) = machines.map (·.uuid) := by
  obtain ⟨found, searched, rest⟩ := bind_ok updated
  rcases searchString_ok searched with ⟨rfl, _⟩ | ⟨before, old, after, rfl, rfl, _, _⟩
  · cases rest
  · have is : (before ++ old :: after)[before.length]? = some old := by simp
    obtain ⟨own, there, creditable, rfl⟩ := (updateMachines_ok_iff searched is).mp updated
    exact set_credit_uuids is

/-- The loop over the machines of a report, exactly: it ends where these are all stored and the report has
what is read from it, and then every stored machine that was reported has been updated once. -/
theorem machines_ok_iff {reported news machines result : List MachineMetric}
    (present : none ∉ machines.map (·.uuid)) (distinct : (machines.map (·.uuid)).Nodup)
    (once : (news.map (·.uuid)).Nodup) :
    news.foldlM (updateMachinesBy average.result reported) machines = .ok result ↔
      (∀ r ∈ news, r.uuid ∈ machines.map (·.uuid)) ∧ Indexed average reported machines (news.map (·.uuid)) ∧
        result = machines.mapIdx (creditedAt average reported (news.map (·.uuid))) := by
  induction news generalizing machines with
  | nil =>
    have unchanged : machines.mapIdx (creditedAt average reported []) = machines := by
      apply List.ext_getElem?
      intro j
      cases is : machines[j]? <;> simp [is,creditedAt_other]
    simp [Indexed,unchanged,pure,Except.pure,eq_comm]
  | cons r rest ih =>
    rw [List.foldlM_cons,bind_ok_iff]
    by_cases stored : r.uuid ∈ machines.map (·.uuid)
    · obtain ⟨p, m, searched, is, same⟩ := search_stored present stored
      obtain ⟨fresh, once⟩ := List.nodup_cons.mp once
      have fresh : m.uuid ∉ rest.map (·.uuid) := same ▸ fresh
      rw [List.map_cons,← same]
      have next (own : MachineMetric) := @ih (machines.set p (credit average m own))
        (set_credit_uuids is ▸ present) (set_credit_uuids is ▸ distinct) once
      simp only [set_credit_uuids is] at next
      simp only [updateMachines_ok_iff searched is]
      constructor
      · rintro ⟨_, ⟨own, there, creditable, rfl⟩, later⟩
        obtain ⟨others, indexed, rfl⟩ := (next own).mp later
        exact ⟨List.forall_mem_cons.mpr ⟨stored, others⟩,
          (indexed_set distinct is fresh there creditable).mp indexed, mapIdx_set distinct is fresh there⟩
      · rintro ⟨all, indexed, rfl⟩
        obtain ⟨own, there, creditable⟩ := indexed p m is List.mem_cons_self
        exact ⟨_, ⟨own, there, creditable, rfl⟩, (next own).mpr ⟨(List.forall_mem_cons.mp all).2,
          (indexed_set distinct is fresh there creditable).mpr indexed,
          (mapIdx_set distinct is fresh there).symm⟩⟩
    · refine iff_of_false ?_ fun ⟨all, _⟩ => stored (all r List.mem_cons_self)
      rintro ⟨_, updated, _⟩
      exact stored (updateMachines_stored updated)

/-- A stored host with the values of a report. -/
def creditHost (average : Average) (old report : HostMetric) : HostMetric := { report with
  cpuLoadUsage := smooth old.cpuLoadUsage report.cpuLoadUsage
  ramUsageTotalAverage := average.value old.ramUsageTotalAverage report.ramUsageTotalAverage
  machines := old.machines.mapIdx (creditedAt average report.machines (report.machines.map (·.uuid))) }

theorem updateHost_ok_iff {old report result : HostMetric} (present : none ∉ old.machines.map (·.uuid))
    (distinct : (old.machines.map (·.uuid)).Nodup) (once : (report.machines.map (·.uuid)).Nodup) :
    updateHostBy average.result old report = .ok result ↔
      (average.inRange old.ramUsageTotalAverage report.ramUsageTotalAverage ∧
        (∀ r ∈ report.machines, r.uuid ∈ old.machines.map (·.uuid)) ∧
        Indexed average report.machines old.machines (report.machines.map (·.uuid))) ∧
      result = creditHost average old report := by
  simp only [updateHostBy,bind_ok_iff,average.result_ok_iff,machines_ok_iff present distinct once]
  constructor
  · rintro ⟨_, ⟨inRange, rfl⟩, _, ⟨stored, indexed, rfl⟩, made⟩
    cases made
    exact ⟨⟨inRange, stored, indexed⟩, rfl⟩
  · rintro ⟨⟨inRange, stored, indexed⟩, rfl⟩
    exact ⟨_, ⟨inRange, rfl⟩, _, ⟨stored, indexed, rfl⟩, rfl⟩

end Average

/-- A report for the host stored at `k`, of machines with uuids of their own that are all stored,
with usages that can be averaged. -/
structure Known (hosts : List HostMetric) (k : Nat) (old report : HostMetric) : Prop where
  found : findHost hosts report.ip = .ok (some k)
  entry : hosts[k]? = some old
  present : none ∉ old.machines.map (·.uuid)
  distinct : (old.machines.map (·.uuid)).Nodup
  once : (report.machines.map (·.uuid)).Nodup
  stored : ∀ r ∈ report.machines, r.uuid ∈ old.machines.map (·.uuid)
  hostRange : InRange old.ramUsageTotalAverage report.ramUsageTotalAverage
  range : ∀ m ∈ old.machines, ∀ r ∈ report.machines, InRange m.ramUsageTotalAverage r.ramUsageTotalAverage

/-- The machine has the averages with, and the values of, the machine of the report. -/
structure Updated (m r result : MachineMetric) : Prop where
  cpuLoadUsage : result.cpuLoadUsage = smooth m.cpuLoadUsage r.cpuLoadUsage
  ramUsageTotalAverage : result.ramUsageTotalAverage = smoothInt m.ramUsageTotalAverage r.ramUsageTotalAverage
  cpu : result.cpu = r.cpu
  ram : result.ram = r.ram
  ip : result.ip = r.ip

/-- The report is taken in, without a read outside its machines; every stored machine that it reports
is updated with the values for itself, and the others stay as they are. -/
def CreditsOwn (hosts : List HostMetric) (k : Nat) (old report : HostMetric) : Prop :=
  ∃ result : HostMetric, setHostUtility hosts (some report) = .ok (hosts.set k result) ∧
    result.machines.length = old.machines.length ∧
    ∀ (j : Nat) (m : MachineMetric), old.machines[j]? = some m →
      ∃ m' : MachineMetric, result.machines[j]? = some m' ∧ m'.uuid = m.uuid ∧
        (∀ r ∈ report.machines, r.uuid = m.uuid → Updated m r m') ∧
        ((∀ r ∈ report.machines, r.uuid ≠ m.uuid) → m' = m)

/-- For a stored machine, `own` would be averaged to the same as `r`. -/
structure SameValues (m own r : MachineMetric) : Prop where
  ip : own.ip = r.ip
  cpu : own.cpu = r.cpu
  ram : own.ram = r.ram
  cpuLoadUsage : own.cpuLoadUsage = r.cpuLoadUsage
  ramUsageTotalAverage : smoothInt m.ramUsageTotalAverage own.ramUsageTotalAverage =
    smoothInt m.ramUsageTotalAverage r.ramUsageTotalAverage

/-- Where a reported machine is stored at `j`, the machine at `j` of the report has the same values,
and an ip. -/
def Aligned (old report : HostMetric) : Prop :=
  ∀ (j : Nat) (m : MachineMetric), old.machines[j]? = some m → ∀ r ∈ report.machines, r.uuid = m.uuid →
    ∃ own : MachineMetric, report.machines[j]? = some own ∧ own.ip ≠ none ∧ SameValues m own r

theorem smooth_injective {old a b : ℚ} (same : smooth old a = smooth old b) : a = b := by
  unfold smooth averageRate at same
  norm_num at same
  linarith

theorem updated_credit {m own r : MachineMetric} : Updated m r (credit checked m own) ↔ SameValues m own r := by
  constructor
  · rintro ⟨load, usage, cpu, ram, ip⟩
    exact ⟨ip, cpu, ram, smooth_injective load, usage⟩
  · rintro ⟨ip, cpu, ram, load, usage⟩
    exact ⟨congrArg (smooth m.cpuLoadUsage) load, usage, cpu, ram, ip⟩

/-- The outcome for a host that is stored. -/
theorem Known.outcome {hosts : List HostMetric} {k : Nat} {old report : HostMetric}
    (known : Known hosts k old report) {next : List HostMetric} :
    setHostUtility hosts (some report) = .ok next ↔
      Indexed checked report.machines old.machines (report.machines.map (·.uuid)) ∧
        next = hosts.set k (creditHost checked old report) := by
  have update : setHostUtility hosts (some report) = updateHostBy checked.result old report >>= fun result =>
      .ok (hosts.set k result) := by
    simp [← setHostUtilityBy_checked,setHostUtilityBy,known.found,known.entry,checked,bind,Except.bind,pure,
      Except.pure]
  simp only [update,bind_ok_iff,updateHost_ok_iff known.present known.distinct known.once,Except.ok.injEq]
  constructor
  · rintro ⟨_, ⟨⟨_, _, indexed⟩, rfl⟩, rfl⟩
    exact ⟨indexed, rfl⟩
  · rintro ⟨indexed, rfl⟩
    exact ⟨_, ⟨⟨known.hostRange, known.stored, indexed⟩, rfl⟩, rfl⟩

theorem Aligned.indexed {hosts : List HostMetric} {k : Nat} {old report : HostMetric}
    (known : Known hosts k old report) (aligned : Aligned old report) :
    Indexed checked report.machines old.machines (report.machines.map (·.uuid)) := by
  intro j m is listed
  obtain ⟨r, member, same⟩ := List.mem_map.mp listed
  obtain ⟨own, there, ip, _⟩ := aligned j m is r member same
  exact ⟨own, there, ip, known.range m (List.mem_of_getElem? is) own (List.mem_of_getElem? there)⟩

theorem CreditsOwn.aligned {hosts : List HostMetric} {k : Nat} {old report : HostMetric}
    (known : Known hosts k old report) (credits : CreditsOwn hosts k old report) : Aligned old report := by
  obtain ⟨result, done, _, machines⟩ := credits
  obtain ⟨indexed, same⟩ := known.outcome.mp done
  obtain rfl := set_injective known.entry same
  intro j m is r member uuid
  have listed : m.uuid ∈ report.machines.map (·.uuid) := List.mem_map.mpr ⟨r, member, uuid⟩
  obtain ⟨own, there, creditable⟩ := indexed j m is listed
  obtain ⟨m', at_j, _, own_values, _⟩ := machines j m is
  rw [creditHost,List.getElem?_mapIdx,is,Option.map_some,creditedAt_own listed there] at at_j
  cases at_j
  exact ⟨own, there, creditable.present, updated_credit.mp (own_values r member uuid)⟩

theorem Aligned.credits {hosts : List HostMetric} {k : Nat} {old report : HostMetric}
    (known : Known hosts k old report) (aligned : Aligned old report) : CreditsOwn hosts k old report := by
  refine ⟨_, known.outcome.mpr ⟨aligned.indexed known, rfl⟩, List.length_mapIdx, fun j m is => ?_⟩
  refine ⟨creditedAt checked report.machines (report.machines.map (·.uuid)) j m, ?_, creditedAt_uuid _ _ _ _, ?_, ?_⟩
  · rw [creditHost,List.getElem?_mapIdx,is,Option.map_some]
  · intro r member uuid
    obtain ⟨own, there, _, same⟩ := aligned j m is r member uuid
    rw [creditedAt_own (List.mem_map.mpr ⟨r, member, uuid⟩) there]
    exact updated_credit.mpr same
  · intro others
    apply creditedAt_other
    intro listed
    obtain ⟨r, member, uuid⟩ := List.mem_map.mp listed
    exact others r member uuid

/-- A report for a stored host, of machines that are all stored, is credited to its machines exactly if at
the index of each of them the report has the same values. -/
theorem report_credits_own {hosts : List HostMetric} {k : Nat} {old report : HostMetric}
    (known : Known hosts k old report) : CreditsOwn hosts k old report ↔ Aligned old report :=
  ⟨CreditsOwn.aligned known, Aligned.credits known⟩

/-- A host with two machines. -/
def twoMachines : HostMetric :=
  ⟨some "10.0.0.1", 4, 2, 1 / 2, 8, 30,
    [⟨some "10.0.1.1", some "a", 1, 1, 1, 5⟩, ⟨some "10.0.1.2", some "b", 1, 1, 1, 5⟩]⟩

/-- Its report lists the first machine alone. -/
theorem report_credits_own_first :
    CreditsOwn [twoMachines] 0 twoMachines
      { twoMachines with machines := [⟨some "10.0.1.1", some "a", 2, 0, 2, 14⟩] } := by
  have known : Known [twoMachines] 0 twoMachines
      { twoMachines with machines := [⟨some "10.0.1.1", some "a", 2, 0, 2, 14⟩] } := by
    refine ⟨rfl, rfl, ?_, ?_, ?_, ?_, ?_, ?_⟩ <;> decide
  refine (report_credits_own known).mpr fun j m is r member same => ?_
  have first : r = ⟨some "10.0.1.1", some "a", 2, 0, 2, 14⟩ := List.mem_singleton.mp member
  subst first
  have at_first : j = 0 := index_unique known.distinct is (rfl : _ = some _) same.symm
  subst at_first
  exact ⟨_, rfl, by simp, rfl, rfl, rfl, rfl, rfl⟩

/-- With the machines in the other order each gets the values of the other one; with the second
machine alone there is nothing at its index. -/
theorem report_miscredited :
    let swapped : HostMetric := { twoMachines with
      machines := [⟨some "10.0.1.2", some "b", 8, 0, 2, 14⟩, ⟨some "10.0.1.1", some "a", 4, 0, 2, 14⟩] }
    let second : HostMetric := { twoMachines with machines := [⟨some "10.0.1.2", some "b", 8, 0, 2, 14⟩] }
    (Known [twoMachines] 0 twoMachines swapped ∧ ¬ CreditsOwn [twoMachines] 0 twoMachines swapped) ∧
      Known [twoMachines] 0 twoMachines second ∧
        setHostUtility [twoMachines] (some second) = .error .pastArray := by
  intro swapped second
  have known : Known [twoMachines] 0 twoMachines swapped := by
    refine ⟨rfl, rfl, ?_, ?_, ?_, ?_, ?_, ?_⟩ <;> decide
  refine ⟨⟨known, fun credits => ?_⟩, ?_, rfl⟩
  · obtain ⟨own, there, _, same⟩ := credits.aligned known 0 _ rfl ⟨some "10.0.1.1", some "a", 4, 0, 2, 14⟩
      (by simp [swapped]) rfl
    cases there
    exact absurd same.cpu (by decide)
  · refine ⟨rfl, rfl, ?_, ?_, ?_, ?_, ?_, ?_⟩ <;> decide

end Hpvc.Monitor
