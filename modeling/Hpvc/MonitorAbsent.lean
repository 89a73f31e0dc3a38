import Hpvc.MonitorApi
import Hpvc.MonitorMachines
import Mathlib.Data.Fintype.EquivFin

/-! Reports and queries with strings left out. A report is stored as it is when its host is new, so what
it leaves out is read when a later message is compared with it; and what is appended for a machine that its
host does not have yet has no strings at all. -/
namespace Hpvc.Monitor

/-- What is stored for a machine that is not found: the figures of its host. The uuid and the ip are never
set. -/
def unsetMachine (host : HostMetric) : MachineMetric :=
  ⟨none, none, host.cpu, host.cpuLoadUsage, host.ram, host.ramUsageTotalAverage⟩

/-- One machine of a report, with the host as it has been updated. The new entry is written behind the
old array, and counted. -/
def takeMachine (host : HostMetric) (reported machines : List MachineMetric) (new : MachineMetric) :
    Except Fault (List MachineMetric) := do
  match ← searchString MachineMetric.uuid new.uuid machines with
  | none => return machines ++ [unsetMachine host]
  | some j =>
    match machines[j]?, reported[j]? with
    | some old, some own => return machines.set j (← updateMachineBy wrappedAverage old own)
    | _, _ => throw .pastArray

def takeHost (old new : HostMetric) : Except Fault HostMetric := do
  let host : HostMetric := { new with
    cpuLoadUsage := smooth old.cpuLoadUsage new.cpuLoadUsage
    ramUsageTotalAverage := wrappedSmoothInt old.ramUsageTotalAverage new.ramUsageTotalAverage }
  let machines ← new.machines.foldlM (takeMachine host new.machines) old.machines
  return { host with machines := machines }

/-- `set_host_utility`, going on after a machine that is not found. -/
def takeReport (hosts : List HostMetric) (report : HostMetric) : Except Fault (List HostMetric) := do
  match ← findHost hosts report.ip with
  | none => return hosts ++ [report]
  | some k =>
    match hosts[k]? with
    | none => return hosts
    | some old => return hosts.set k (← takeHost old report)

/-- A report that was unpacked, or a query. -/
inductive ServerEvent where
  | report (message : HostMetric)
  | query (message : InterfaceMessage)

/-- The table after an event. -/
def serve (hosts : List HostMetric) : ServerEvent → Except Fault (List HostMetric)
  | .report message => takeReport hosts message
  | .query message =>
    if message.isHost = 1 then (findHost hosts message.ip).map fun _ => hosts
    else (findMachine hosts message.ip).map fun _ => hosts

def serverStep (hosts : List HostMetric) (event : ServerEvent) : Option (List HostMetric) :=
  (serve hosts event).toOption

def MachineMetric.Whole (m : MachineMetric) : Prop := m.ip ≠ none ∧ m.uuid ≠ none

def HostMetric.Whole (h : HostMetric) : Prop := h.ip ≠ none ∧ ∀ m ∈ h.machines, m.Whole

/-- An event with all its strings. -/
def ServerEvent.Whole : ServerEvent → Prop
  | .report message => message.Whole
  | .query message => message.ip ≠ none

def machineIps (hosts : List HostMetric) : List (Option String) :=
  hosts.flatMap fun h => h.machines.map (·.ip)

/-- The machine is stored, and where its report has a machine at the same index, that one has an ip. -/
def Expected (reported machines : List MachineMetric) (m : MachineMetric) : Prop :=
  m.uuid ∈ machines.map (·.uuid) ∧
    ∀ (j : Nat) (own : MachineMetric), searchString MachineMetric.uuid m.uuid machines = .ok (some j) →
      reported[j]? = some own → own.ip ≠ none

/-- The report of a new host has all its strings, and that of a stored one lists stored machines only; a
query has an ip if there is one to compare it with. -/
def Acceptable (hosts : List HostMetric) : ServerEvent → Prop
  | .report message => message.ip ≠ none ∧
      (findHost hosts message.ip = .ok none → ∀ m ∈ message.machines, m.Whole) ∧
      ∀ k old, findHost hosts message.ip = .ok (some k) → hosts[k]? = some old →
        ∀ m ∈ message.machines, Expected message.machines old.machines m
  | .query message =>
    if message.isHost = 1 then hosts ≠ [] → message.ip ≠ none else machineIps hosts ≠ [] → message.ip ≠ none

theorem Expected.congr {reported machines machines' : List MachineMetric} {m : MachineMetric}
    (same : machines.map (·.uuid) = machines'.map (·.uuid)) :
    Expected reported machines m ↔ Expected reported machines' m := by
  simp only [Expected,same,searchString_congr same]

theorem searchString_cons_ne {field : α → Option String} {t s : String} {x : α} {rest : List α}
    (is : field x = some s) (differs : s ≠ t) :
    searchString field (some t) (x :: rest) = (searchString field (some t) rest).map (Option.map (· + 1)) := by
  simp only [searchString,is,strEq,bind,Except.bind]
  rw [beq_eq_false_iff_ne.mpr differs]
  cases searchString field (some t) rest <;> rfl

/-- A search for a string that is nowhere comes to the absent ones. -/
theorem searchString_absent {field : α → Option String} {t : String} {l : List α}
    (absent : none ∈ l.map field) (fresh : some t ∉ l.map field) :
    searchString field (some t) l = .error .nullString := by
  induction l with
  | nil => simp at absent
  | cons x rest ih =>
    cases is : field x with
    | none => simp [searchString,is,strEq,bind,Except.bind]
    | some s =>
      rw [List.map_cons,is,List.mem_cons] at absent fresh
      obtain ⟨differs, later⟩ := not_or.mp fresh
      rw [searchString_cons_ne is fun same => differs (congrArg some same.symm),
        ih (absent.resolve_left (Option.some_ne_none s).symm) later]
      rfl

/-- A search stops at the first element that has the string, if it comes there. -/
theorem searchString_first {field : α → Option String} {t : String} {before after : List α} {x : α}
    (given : ∀ y ∈ before, field y ≠ none) (others : ∀ y ∈ before, field y ≠ some t) (is : field x = some t) :
    searchString field (some t) (before ++ x :: after) = .ok (some before.length) := by
  induction before with
  | nil => simp [searchString,is,strEq,bind,Except.bind,pure,Except.pure]
  | cons y rest ih =>
    obtain ⟨s, has⟩ := Option.ne_none_iff_exists'.mp (given y List.mem_cons_self)
    have differs : s ≠ t := fun same => others y List.mem_cons_self (has.trans (congrArg some same))
    rw [List.cons_append,searchString_cons_ne has differs,
      ih (fun z member => given z (List.mem_cons_of_mem _ member))
        fun z member => others z (List.mem_cons_of_mem _ member)]
    rfl

theorem searchString_ungiven {field : α → Option String} {l : List α} (given : l ≠ []) :
    searchString field none l = .error .nullString := by
  obtain ⟨x, rest, rfl⟩ := List.exists_cons_of_ne_nil given
  cases is : field x <;> simp [searchString,is,strEq,bind,Except.bind]

theorem findMachine_absent {hosts : List HostMetric} {t : String} (absent : none ∈ machineIps hosts)
    (fresh : some t ∉ machineIps hosts) : findMachine hosts (some t) = .error .nullString := by
  induction hosts with
  | nil => simp [machineIps] at absent
  | cons host rest ih =>
    have ips : machineIps (host :: rest) = host.machines.map (·.ip) ++ machineIps rest := rfl
    rw [ips,List.mem_append] at absent fresh
    obtain ⟨here, later⟩ := not_or.mp fresh
    by_cases first : none ∈ host.machines.map (·.ip)
    · simp [findMachine,searchString_absent first here,bind,Except.bind]
    · obtain ⟨found, searched⟩ := searchString_fine MachineMetric.ip (Option.some_ne_none t)
        (fun m member none => first (none ▸ List.mem_map_of_mem (f := (·.ip)) member))
      rcases searchString_ok searched with ⟨rfl, _⟩ | ⟨before, m, after, same, _, is, _⟩
      · simp [findMachine,searched,ih (absent.resolve_left first) later,bind,Except.bind]
      · exact absurd (is ▸ List.mem_map_of_mem (by simp [same])) here

/-- Where there is nothing to compare with, nothing is read. -/
theorem findMachine_nothing {hosts : List HostMetric} {ip : Option String} (nothing : machineIps hosts = []) :
    findMachine hosts ip = .ok none := by
  induction hosts with
  | nil => rfl
  | cons host rest ih =>
    have ips : machineIps (host :: rest) = host.machines.map (·.ip) ++ machineIps rest := rfl
    rw [ips,List.append_eq_nil_iff,List.map_eq_nil_iff] at nothing
    simp [findMachine,nothing.1,searchString,ih nothing.2,bind,Except.bind,pure,Except.pure]

theorem findMachine_ungiven {hosts : List HostMetric} (given : machineIps hosts ≠ []) :
    findMachine hosts none = .error .nullString := by
  induction hosts with
  | nil => exact absurd rfl given
  | cons host rest ih =>
    have ips : machineIps (host :: rest) = host.machines.map (·.ip) ++ machineIps rest := rfl
    by_cases none : host.machines = []
    · rw [ips,none] at given
      simp [findMachine,none,searchString,ih given,bind,Except.bind]
    · simp [findMachine,searchString_ungiven none,bind,Except.bind]

theorem exists_fresh (l : List (Option String)) : ∃ t, some t ∉ l := by
  obtain ⟨t, fresh⟩ := Infinite.exists_notMem_finset (l.filterMap id).toFinset
  exact ⟨t, fun member => fresh (List.mem_toFinset.mpr (List.mem_filterMap.mpr ⟨_, member, rfl⟩))⟩

/-- A table without an absent string. -/
def Present (hosts : List HostMetric) : Prop := ∀ h ∈ hosts, h.Whole

/-- A computation succeeds with a property, or fails for something else than an absent string. -/
def Avoids (x : Except Fault α) (property : α → Prop) : Prop :=
  match x with
  | .ok a => property a
  | .error fault => fault ≠ .nullString

theorem Avoids.bind {x : Except Fault α} {f : α → Except Fault β} {property : α → Prop} {result : β → Prop}
    (first : Avoids x property) (next : ∀ a, property a → Avoids (f a) result) : Avoids (x >>= f) result := by
  cases x with
  | error fault => exact first
  | ok a => exact next a first

theorem wrapping_ok_iff {m own result : MachineMetric} :
    updateMachineBy wrappedAverage m own = .ok result ↔ Creditable wrapping m own ∧ result = credit wrapping m own :=
  @updateMachine_ok_iff wrapping m own result

/-- One machine that is stored. -/
theorem takeMachine_avoids {host : HostMetric} {reported machines : List MachineMetric} {m : MachineMetric}
    (whole : ∀ x ∈ machines, x.Whole) (expected : Expected reported machines m) :
    Avoids (takeMachine host reported machines m) fun result =>
      (∀ x ∈ result, x.Whole) ∧ result.map (·.uuid) = machines.map (·.uuid) := by
  have uuids : none ∉ machines.map (·.uuid) := fun member => by
    obtain ⟨x, inside, absent⟩ := List.mem_map.mp member
    exact (whole x inside).2 absent
  obtain ⟨p, old, searched, is, _⟩ := search_stored uuids expected.1
  unfold takeMachine
  rw [searched]
  cases there : reported[p]? with
  | none =>
    simp [bind,Except.bind,is,there,Avoids,throw,throwThe,MonadExceptOf.throw]
  | some own =>
    obtain ⟨address, has⟩ := Option.ne_none_iff_exists'.mp (expected.2 p own searched there)
    have creditable : Creditable wrapping old own :=
      ⟨fun absent => Option.some_ne_none address (has.symm.trans absent), trivial⟩
    have updated : updateMachineBy wrappedAverage old own = .ok (credit wrapping old own) :=
      wrapping_ok_iff.mpr ⟨creditable, rfl⟩
    simp only [bind,Except.bind,is,there,updated,pure,Except.pure,Avoids]
    refine ⟨fun x member => ?_, set_credit_uuids is⟩
    rcases List.mem_or_eq_of_mem_set member with stored | rfl
    · exact whole x stored
    · exact ⟨by simp [credit,has], (whole old (List.mem_of_getElem? is)).2⟩

theorem takeMachines_avoid {host : HostMetric} {reported news machines : List MachineMetric}
    (whole : ∀ x ∈ machines, x.Whole) (expected : ∀ m ∈ news, Expected reported machines m) :
    Avoids (news.foldlM (takeMachine host reported) machines) fun result => ∀ x ∈ result, x.Whole := by
  induction news generalizing machines with
  | nil => exact whole
  | cons m rest ih =>
    rw [List.foldlM_cons]
    apply (takeMachine_avoids whole (expected m List.mem_cons_self)).bind
    rintro result ⟨still, kept⟩
    exact ih still fun x later => (Expected.congr kept).mpr (expected x (List.mem_cons_of_mem _ later))

theorem takeReport_fresh {hosts : List HostMetric} {report : HostMetric}
    (searched : findHost hosts report.ip = .ok none) : takeReport hosts report = .ok (hosts ++ [report]) := by
  simp only [takeReport,searched,bind,Except.bind]
  rfl

theorem takeReport_listed {before after : List HostMetric} {old report : HostMetric}
    (searched : findHost (before ++ old :: after) report.ip = .ok (some before.length)) :
    takeReport (before ++ old :: after) report =
      takeHost old report >>= fun result => .ok (before ++ result :: after) := by
  simp [takeReport,searched,bind,Except.bind,pure,Except.pure]

theorem serverStep_ok {hosts next : List HostMetric} {event : ServerEvent} :
    serverStep hosts event = some next ↔ serve hosts event = .ok next := by
  unfold serverStep
  cases serve hosts event <;> simp [Except.toOption]

/-- The step lemma: from a table without absent strings, an acceptable event reads none and stores none. -/
theorem acceptable_served {hosts : List HostMetric} {event : ServerEvent} (present : Present hosts)
    (acceptable : Acceptable hosts event) : Avoids (serve hosts event) Present := by
  cases event with
  | report message =>
    obtain ⟨ip, fresh, stored⟩ := acceptable
    obtain ⟨found, searched⟩ := searchString_fine HostMetric.ip ip fun h member => (present h member).1
    rcases searchString_ok searched with ⟨rfl, _⟩ | ⟨before, old, after, rfl, rfl, _, _⟩
    · rw [serve,takeReport_fresh searched]
      intro h member
      rcases List.mem_append.mp member with earlier | new
      · exact present h earlier
      · exact List.mem_singleton.mp new ▸ ⟨ip, fresh searched⟩
    · rw [serve,takeReport_listed searched]
      have whole := (present old (by simp)).2
      have taken : Avoids (takeHost old _) HostMetric.Whole :=
        (takeMachines_avoid whole (stored _ old searched (by simp))).bind fun machines kept => ⟨ip, kept⟩
      refine taken.bind fun result kept h member => ?_
      rcases List.mem_append.mp member with early | late
      · exact present h (by simp [early])
      · rcases List.mem_cons.mp late with rfl | late
        · exact kept
        · exact present h (by simp [late])
  | query message =>
    simp only [Acceptable] at acceptable
    simp only [serve]
    split at acceptable
    next host =>
      rw [if_pos host]
      cases hosts with
      | nil => exact present
      | cons first rest =>
        obtain ⟨found, searched⟩ := searchString_fine HostMetric.ip (acceptable (List.cons_ne_nil _ _))
          fun h member => (present h member).1
        rw [findHost,searched]
        exact present
    next machine =>
      rw [if_neg machine]
      cases is : message.ip with
      | none =>
        have nothing : machineIps hosts = [] := by
          by_contra some_ip
          exact acceptable some_ip is
        have searched : findMachine hosts none = .ok none := findMachine_nothing nothing
        rw [searched]
        exact present
      | some ip =>
        obtain ⟨found, searched⟩ := findMachine_fine (fun h member m inside => ((present h member).2 m inside).1) ip
        rw [searched]
        exact present

/-- What the loop over the machines of a report stores behind the others has no uuid. -/
theorem takeMachines_cases {host : HostMetric} {reported news machines result : List MachineMetric}
    (taken : news.foldlM (takeMachine host reported) machines = .ok result) :
    (none ∈ machines.map (·.uuid) → none ∈ result.map (·.uuid)) ∧
      ((∀ m ∈ news, Expected reported machines m) ∨ none ∈ result.map (·.uuid)) := by
  induction news generalizing machines with
  | nil =>
    cases taken
    exact ⟨id, .inl (by simp)⟩
  | cons m rest ih =>
    rw [List.foldlM_cons] at taken
    obtain ⟨next, first, later⟩ := bind_ok taken
    obtain ⟨keeps, others⟩ := ih later
    obtain ⟨found, searched, first⟩ := bind_ok first
    rcases searchString_ok searched with ⟨rfl, _⟩ | ⟨before, old, after, rfl, rfl, is, _⟩
    · cases first
      have unset : none ∈ (machines ++ [unsetMachine host]).map (·.uuid) := by simp [unsetMachine]
      exact ⟨fun _ => keeps unset, .inr (keeps unset)⟩
    · have at_p : (before ++ old :: after)[before.length]? = some old := by simp
      simp only [at_p] at first
      cases there : reported[before.length]? with
      | none => simp [there,throw,throwThe,MonadExceptOf.throw] at first
      | some own =>
        simp only [there] at first
        obtain ⟨updated, credited, stored⟩ := bind_ok first
        cases stored
        obtain ⟨creditable, rfl⟩ := wrapping_ok_iff.mp credited
        have kept : ((before ++ old :: after).set before.length (credit wrapping old own)).map (·.uuid) =
            (before ++ old :: after).map (·.uuid) := set_credit_uuids at_p
        rw [kept] at keeps
        refine ⟨keeps, others.imp_left fun expected x member => ?_⟩
        rcases List.mem_cons.mp member with rfl | inside
        · refine ⟨is ▸ by simp, fun j own' again there' => ?_⟩
          cases again.symm.trans searched
          cases there.symm.trans there'
          exact creditable.present
        · exact (Expected.congr kept).mp (expected x inside)

/-- A host with an absent uuid is stored: its next report, whole but for a machine that is new, reads it. -/
theorem absent_uuid_read {before after : List HostMetric} {h : HostMetric} {t : String}
    (searched : findHost (before ++ h :: after) (some t) = .ok (some before.length))
    (absent : none ∈ h.machines.map (·.uuid)) :
    ∃ later : ServerEvent, later.Whole ∧ serve (before ++ h :: after) later = .error .nullString := by
  obtain ⟨uuid, fresh⟩ := exists_fresh (h.machines.map (·.uuid))
  refine ⟨.report ⟨some t, 1, 1, 0, 1, 0, [⟨some t, some uuid, 1, 0, 1, 0⟩]⟩, ?_, ?_⟩
  · simp [ServerEvent.Whole,HostMetric.Whole,MachineMetric.Whole]
  · rw [serve,takeReport_listed searched,takeHost]
    simp only [List.foldlM_cons,takeMachine,searchString_absent absent fresh,bind,Except.bind]

theorem absent_ip_read {hosts : List HostMetric} (absent : none ∈ hosts.map (·.ip)) :
    ∃ later : ServerEvent, later.Whole ∧ serve hosts later = .error .nullString := by
  obtain ⟨ip, fresh⟩ := exists_fresh (hosts.map (·.ip))
  refine ⟨.report ⟨some ip, 1, 1, 0, 1, 0, []⟩, by simp [ServerEvent.Whole,HostMetric.Whole], ?_⟩
  simp only [serve,takeReport,findHost,searchString_absent absent fresh,bind,Except.bind]

theorem absent_machine_ip_read {hosts : List HostMetric} (absent : none ∈ machineIps hosts) :
    ∃ later : ServerEvent, later.Whole ∧ serve hosts later = .error .nullString := by
  obtain ⟨ip, fresh⟩ := exists_fresh (machineIps hosts)
  refine ⟨.query ⟨true, 0, some ip⟩, by simp [ServerEvent.Whole], ?_⟩
  simp [serve,findMachine_absent absent fresh,Except.map]

/-- An event that is not acceptable, if it is taken in, leaves an absent string that a later one reads. -/
theorem unacceptable_read {hosts next : List HostMetric} {event : ServerEvent} (present : Present hosts)
    (unacceptable : ¬ Acceptable hosts event) (served : serve hosts event = .ok next) :
    ∃ later : ServerEvent, later.Whole ∧ serve next later = .error .nullString := by
  cases event with
  | report message =>
    cases ip : message.ip with
    | none =>
      cases hosts with
      | nil =>
        have fresh : findHost [] message.ip = .ok none := rfl
        rw [serve,takeReport_fresh fresh] at served
        cases served
        exact absent_ip_read (by simp [ip])
      | cons first rest =>
        simp [serve,takeReport,findHost,ip,searchString_ungiven,bind,Except.bind] at served
    | some t =>
      obtain ⟨found, searched⟩ := searchString_fine HostMetric.ip (Option.some_ne_none t)
        fun h member => (present h member).1
      have looked : findHost hosts message.ip = .ok found := ip ▸ searched
      rcases searchString_ok searched with ⟨rfl, others⟩ | ⟨before, old, after, rfl, rfl, is, others⟩
      · rw [serve,takeReport_fresh looked] at served
        cases served
        -- The report of a new host lacks a string of a machine.
        obtain ⟨m, member, lacks⟩ : ∃ m ∈ message.machines, ¬ m.Whole := by
          by_contra whole
          push Not at whole
          exact unacceptable ⟨by simp [ip], fun _ => whole, fun k old again => by cases looked.symm.trans again⟩
        by_cases uuid : m.uuid = none
        · have last : findHost (hosts ++ [message]) (some t) = .ok (some hosts.length) :=
            searchString_first (fun h member => (present h member).1) others ip
          exact absent_uuid_read last (uuid ▸ List.mem_map_of_mem (f := (·.uuid)) member)
        · refine absent_machine_ip_read (List.mem_flatMap.mpr ⟨message, by simp, ?_⟩)
          have absent : m.ip = none := by
            by_contra given
            exact lacks ⟨given, uuid⟩
          exact absent ▸ List.mem_map_of_mem (f := (·.ip)) member
      · rw [serve,takeReport_listed looked] at served
        obtain ⟨result, updated, stored⟩ := bind_ok served
        cases stored
        obtain ⟨machines, looped, made⟩ := bind_ok updated
        cases made
        -- A machine that is not expected, and did not stop the server, was appended.
        rcases (takeMachines_cases looped).2 with expected | absent
        · apply absurd _ unacceptable
          refine ⟨by simp [ip], ?_, ?_⟩
          · intro missing
            cases looked.symm.trans missing
          intro k old' again entry
          cases looked.symm.trans again
          have same : old = old' := by simpa using entry
          exact same ▸ expected
        · refine absent_uuid_read (searchString_first (fun h member => (present h (by simp [member])).1) others ?_)
            absent
          exact ip
  | query message =>
    simp only [Acceptable] at unacceptable
    simp only [serve] at served
    split at unacceptable
    next host =>
      push Not at unacceptable
      rw [if_pos host,findHost,unacceptable.2,searchString_ungiven unacceptable.1] at served
      cases served
    next machine =>
      push Not at unacceptable
      rw [if_neg machine,unacceptable.2,findMachine_ungiven unacceptable.1] at served
      cases served

/-- In every sequence of reports and queries that are all acceptable when they come, no absent string is
read. And when an event that is not is taken in after such a sequence, some later event with all its strings
reads one. -/
theorem absent_strings_unread (events : List ServerEvent) :
    (Runs.Each serverStep [] events Acceptable →
      Runs.Each serverStep [] events fun hosts event => serve hosts event ≠ .error .nullString) ∧
    (Runs.Each serverStep [] events Acceptable → ∀ hosts event next,
      Runs.run serverStep [] events = some hosts → ¬ Acceptable hosts event → serve hosts event = .ok next →
        ∃ later : ServerEvent, later.Whole ∧ serve next later = .error .nullString) := by
  have kept (past : List ServerEvent) (acceptable : Runs.Each serverStep [] past Acceptable) (hosts : List HostMetric)
      (reached : Runs.run serverStep [] past = some hosts) : Present hosts := by
    revert acceptable
    refine Runs.run_history (fun past hosts => Runs.Each serverStep [] past Acceptable → Present hosts)
      (fun _ => by simp [Present]) (fun past mid event next before present taken acceptable => ?_) reached
    obtain ⟨earlier, now⟩ := Runs.each_snoc.mp acceptable
    have avoids := acceptable_served (present earlier) (now mid before)
    rwa [serverStep_ok.mp taken] at avoids
  refine ⟨fun acceptable past event rest mid split reached failed => ?_,
    fun acceptable hosts event next reached unacceptable served =>
      unacceptable_read (kept events acceptable hosts reached) unacceptable served⟩
  subst split
  have avoids := acceptable_served (kept past (Runs.each_of_append acceptable) mid reached)
    (acceptable past event rest mid rfl reached)
  rw [failed] at avoids
  exact avoids rfl

/-- The report of a first host without an ip is stored; with it stored, the next report, which
has all its strings, reads the absent one. And a host that reports two machines it did not have at first
reads the uuid that was not set for the first of them. -/
theorem absent_string_read :
    let silent : HostMetric := ⟨none, 4, 2, 1 / 2, 8, 30, []⟩
    let complete : HostMetric := ⟨some "10.0.0.2", 8, 4, 1 / 4, 16, 20, []⟩
    let machine (ip uuid : String) : MachineMetric := ⟨some ip, some uuid, 1, 1, 1, 5⟩
    let alone : HostMetric := { complete with machines := [machine "10.0.1.1" "a"] }
    let joined : HostMetric :=
      { complete with machines := [machine "10.0.1.1" "a", machine "10.0.1.2" "b", machine "10.0.1.3" "c"] }
    serverStep [] (.report silent) = some [silent] ∧
      serve [silent] (.report complete) = .error .nullString ∧
      serverStep [] (.report alone) = some [alone] ∧ serve [alone] (.report joined) = .error .nullString :=
  ⟨rfl, rfl, rfl, rfl⟩

end Hpvc.Monitor
