import Hpvc.Library.KeyedTable
import Hpvc.MonitorServer

/-! The host table refines a table that is keyed by ip and filled by folds: one message
does to the list of hosts what one record does to that table. -/
namespace Hpvc.Monitor

theorem bind_ok {x : Except ε α} {f : α → Except ε β} {b : β} (h : x >>= f = .ok b) :
    ∃ a, x = .ok a ∧ f a = .ok b := by
  cases x with
  | error e => contradiction
  | ok a => exact ⟨a, rfl, h⟩

/-- Either nothing has the string, or the search stops at the first element that has. -/
theorem searchString_ok {field : α → Option String} {text : Option String} {l : List α}
    {found : Option Nat} (h : searchString field text l = .ok found) :
    (found = none ∧ ∀ x ∈ l, field x ≠ text) ∨
      ∃ before x after, l = before ++ x :: after ∧ found = some before.length ∧ field x = text ∧
        ∀ y ∈ before, field y ≠ text := by
  induction l generalizing found with
  | nil => cases h; exact .inl ⟨rfl, by simp⟩
  | cons x rest ih =>
    obtain ⟨same, compared, h⟩ := bind_ok h
    have agrees : same = true ↔ field x = text := by
      cases is : field x <;> cases text <;> simp only [is,strEq,reduceCtorEq,Except.ok.injEq] at compared
      subst compared
      simp
    cases same with
    | true =>
      cases h
      exact .inr ⟨[], x, rest, rfl, rfl, agrees.mp rfl, by simp⟩
    | false =>
      have differs : field x ≠ text := fun is => by simp [is] at agrees
      obtain ⟨later, searched, h⟩ := bind_ok h
      cases h
      rcases ih searched with ⟨rfl, others⟩ | ⟨before, y, after, rfl, rfl, is, others⟩
      · refine .inl ⟨rfl, fun z hz => ?_⟩
        rcases List.mem_cons.mp hz with rfl | hz
        · exact differs
        · exact others z hz
      · refine .inr ⟨x :: before, y, after, rfl, rfl, is, fun z hz => ?_⟩
        rcases List.mem_cons.mp hz with rfl | hz
        · exact differs
        · exact others z hz

/-- A search depends on the strings alone. -/
theorem searchString_congr {field : α → Option String} {text : Option String} {l l' : List α}
    (same : l.map field = l'.map field) : searchString field text l = searchString field text l' := by
  induction l generalizing l' with
  | nil => rw [List.map_eq_nil_iff.mp same.symm]
  | cons x rest ih =>
    obtain ⟨y, rest', rfl⟩ : ∃ y rest', l' = y :: rest' := List.exists_cons_of_ne_nil (by
      rintro rfl
      cases same)
    simp only [List.map_cons,List.cons.injEq] at same
    simp only [searchString,same.1,ih same.2]

/-- What the table keeps of a host besides its ip and its machines. -/
structure Entry where
  cpu : Nat
  ram : Nat
  corePerCpu : Int
  cpuLoadUsage : ℚ
  ramUsageTotalAverage : Int

def firstEntry (r : HostMetric) : Entry :=
  ⟨r.cpu, r.ram, r.corePerCpu, r.cpuLoadUsage, r.ramUsageTotalAverage⟩

def Entry.again (e : Entry) (r : HostMetric) : Entry :=
  ⟨r.cpu, r.ram, r.corePerCpu, smooth e.cpuLoadUsage r.cpuLoadUsage,
    smoothInt e.ramUsageTotalAverage r.ramUsageTotalAverage⟩

def summary (h : HostMetric) : Option String × Entry := (h.ip, firstEntry h)

theorem updateHost_ok {old new result : HostMetric} (h : updateHost old new = .ok result) :
    summary result = (new.ip, (firstEntry old).again new) := by
  obtain ⟨ramUsage, checked, h⟩ := bind_ok h
  obtain ⟨machines, _, h⟩ := bind_ok h
  cases h
  unfold checkedSmoothInt at checked
  split at checked
  · cases checked
    rfl
  · contradiction

/-- A report of a host that is not listed. -/
theorem setHostUtility_fresh {hosts : List HostMetric} {report : HostMetric}
    (searched : findHost hosts report.ip = .ok none) :
    setHostUtility hosts (some report) = .ok (hosts ++ [report]) := by
  simp only [setHostUtility,searched,bind,Except.bind]
  rfl

/-- A report of a host that is. -/
theorem setHostUtility_listed {before after : List HostMetric} {old report : HostMetric}
    (searched : findHost (before ++ old :: after) report.ip = .ok (some before.length)) :
    setHostUtility (before ++ old :: after) (some report) =
      updateHost old report >>= fun result => .ok (before ++ result :: after) := by
  simp [setHostUtility,searched,bind,Except.bind,pure,Except.pure]

/-- The simulation: a report is put into the keyed table. -/
theorem setHostUtility_put {hosts next : List HostMetric} {report : HostMetric}
    (h : setHostUtility hosts (some report) = .ok next) :
    next.map summary =
      KeyedTable.put HostMetric.ip firstEntry Entry.again (hosts.map summary) report := by
  obtain ⟨found, searched, _⟩ := bind_ok h
  rcases searchString_ok searched with ⟨rfl, others⟩ | ⟨before, old, after, rfl, rfl, is, others⟩
  · cases (setHostUtility_fresh searched).symm.trans h
    rw [KeyedTable.put_fresh]
    · simp [summary]
    · intro entry member
      obtain ⟨x, hx, rfl⟩ := List.mem_map.mp member
      exact others x hx
  · rw [setHostUtility_listed searched] at h
    obtain ⟨result, updated, h⟩ := bind_ok h
    cases h
    simp only [List.map_append,List.map_cons]
    rw [show summary old = (old.ip, firstEntry old) from rfl,KeyedTable.put_found _ _ _ is]
    · simp [updateHost_ok updated,is]
    · intro entry member
      obtain ⟨x, hx, rfl⟩ := List.mem_map.mp member
      exact others x hx

theorem step_ok {hosts next : List HostMetric} {msg : Option HostMetric} :
    step hosts msg = some next ↔ setHostUtility hosts msg = .ok next := by
  unfold step
  cases setHostUtility hosts msg <;> simp [Except.toOption]

/-- The reports among the messages. -/
def reports (messages : List (Option HostMetric)) : List HostMetric := messages.filterMap id

theorem run_table {messages : List (Option HostMetric)} {final : List HostMetric}
    (h : Runs.run step [] messages = some final) :
    final.map summary = KeyedTable.table HostMetric.ip firstEntry Entry.again (reports messages) := by
  refine Runs.run_history (fun past hosts => hosts.map summary =
    KeyedTable.table HostMetric.ip firstEntry Entry.again (reports past)) rfl
    (fun past mid msg next _ same taken => ?_) h
  have taken := step_ok.mp taken
  cases msg with
  | none =>
    cases taken
    simpa [reports] using same
  | some report =>
    rw [setHostUtility_put taken,same]
    simp [KeyedTable.table,reports]

/-- The entry of a host, from its own reports: the last one's figures, and the averages
folded from the first. -/
structure Folded (h first : HostMetric) (later : List HostMetric) : Prop where
  cpu : h.cpu = ((first :: later).getLast (List.cons_ne_nil _ _)).cpu
  ram : h.ram = ((first :: later).getLast (List.cons_ne_nil _ _)).ram
  corePerCpu : h.corePerCpu = ((first :: later).getLast (List.cons_ne_nil _ _)).corePerCpu
  cpuLoadUsage : h.cpuLoadUsage =
    later.foldl (fun old r => smooth old r.cpuLoadUsage) first.cpuLoadUsage
  ramUsageTotalAverage : h.ramUsageTotalAverage =
    later.foldl (fun old r => smoothInt old r.ramUsageTotalAverage) first.ramUsageTotalAverage

theorem entry_fold (first : HostMetric) (later : List HostMetric) :
    later.foldl Entry.again (firstEntry first) =
      ⟨((first :: later).getLast (List.cons_ne_nil _ _)).cpu,
        ((first :: later).getLast (List.cons_ne_nil _ _)).ram,
        ((first :: later).getLast (List.cons_ne_nil _ _)).corePerCpu,
        later.foldl (fun old r => smooth old r.cpuLoadUsage) first.cpuLoadUsage,
        later.foldl (fun old r => smoothInt old r.ramUsageTotalAverage) first.ramUsageTotalAverage⟩ := by
  induction later using List.reverseRecOn with
  | nil => rfl
  | append_singleton later r ih =>
    have last : (first :: (later ++ [r])).getLast (List.cons_ne_nil _ _) = r := by
      rw [List.getLast_cons (by simp)]
      exact List.getLast_concat
    simp only [List.foldl_append,List.foldl_cons,List.foldl_nil,last,ih]
    rfl

/-- One entry for each reported ip, in the order of the first reports. -/
structure TableOf (reports hosts : List HostMetric) : Prop where
  distinct : (hosts.map (·.ip)).Nodup
  order : hosts.map (·.ip) = KeyedTable.firsts HostMetric.ip reports
  entry : ∀ h ∈ hosts, ∃ first later,
    reports.filter (fun r => r.ip = h.ip) = first :: later ∧ Folded h first later

theorem run_tableOf {messages : List (Option HostMetric)} {final : List HostMetric}
    (h : Runs.run step [] messages = some final) : TableOf (reports messages) final := by
  have refined := run_table h
  have order : final.map (·.ip) = KeyedTable.firsts HostMetric.ip (reports messages) := by
    have keys := KeyedTable.table_keys HostMetric.ip firstEntry Entry.again (reports messages)
    rw [← refined,List.map_map] at keys
    exact keys
  refine ⟨order ▸ KeyedTable.firsts_nodup _ _, order, fun host member => ?_⟩
  have listed : (host.ip, firstEntry host) ∈
      KeyedTable.table HostMetric.ip firstEntry Entry.again (reports messages) :=
    refined ▸ List.mem_map_of_mem (f := summary) member
  obtain ⟨first, later, own, folded⟩ := KeyedTable.table_entry _ _ _ _ listed
  rw [entry_fold] at folded
  simp only [firstEntry,Entry.mk.injEq] at folded
  obtain ⟨cpu, ram, core, load, usage⟩ := folded
  exact ⟨first, later, own, cpu, ram, core, load, usage⟩

/-- A computation succeeds with a property, or an integer average overflows. -/
def UnlessOverflow (x : Except Fault α) (property : α → Prop) : Prop :=
  match x with
  | .ok a => property a
  | .error fault => fault = .overflow

theorem UnlessOverflow.bind {x : Except Fault α} {f : α → Except Fault β} {property : α → Prop}
    {result : β → Prop} (first : UnlessOverflow x property)
    (next : ∀ a, property a → UnlessOverflow (f a) result) : UnlessOverflow (x >>= f) result := by
  cases x with
  | error fault => exact first
  | ok a => exact next a first

theorem checkedSmoothInt_fine (old new : Int) : UnlessOverflow (checkedSmoothInt old new) fun _ => True := by
  unfold checkedSmoothInt
  split
  · trivial
  · rfl

/-- A search among strings that are all there does not fail. -/
theorem searchString_fine (field : α → Option String) {text : Option String} (given : text ≠ none)
    {l : List α} (all : ∀ x ∈ l, field x ≠ none) :
    ∃ found, searchString field text l = .ok found := by
  induction l with
  | nil => exact ⟨none, rfl⟩
  | cons x rest ih =>
    obtain ⟨t, rfl⟩ := Option.ne_none_iff_exists'.mp given
    obtain ⟨s, is⟩ := Option.ne_none_iff_exists'.mp (all x List.mem_cons_self)
    obtain ⟨found, searched⟩ := ih fun y hy => all y (List.mem_cons_of_mem _ hy)
    by_cases same : s = t
    · exact ⟨some 0, by simp [searchString,is,strEq,same,bind,Except.bind,pure,Except.pure]⟩
    · exact ⟨found.map (· + 1), by
        simp [searchString,is,strEq,same,searched,bind,Except.bind,pure,Except.pure]⟩

theorem updateMachine_fine {old new : MachineMetric} (ip : new.ip ≠ none) :
    UnlessOverflow (updateMachine old new) fun result => result.uuid = old.uuid := by
  obtain ⟨address, present⟩ := Option.ne_none_iff_exists'.mp ip
  refine (checkedSmoothInt_fine old.ramUsageTotalAverage new.ramUsageTotalAverage).bind fun usage _ => ?_
  simp only [present]
  exact rfl

/-- The outcome for a machine that is stored. -/
theorem updateMachines_found {reported before after : List MachineMetric} {old own new : MachineMetric}
    (searched : searchString MachineMetric.uuid new.uuid (before ++ old :: after) = .ok (some before.length))
    (is : reported[before.length]? = some own) :
    updateMachines reported (before ++ old :: after) new = updateMachine old own >>= fun result =>
      pure (before ++ result :: after) := by
  unfold updateMachines
  rw [searched]
  simp [bind,Except.bind,is]

/-- A machine that is listed is found, and its update keeps the uuids. -/
theorem updateMachines_fine {reported machines : List MachineMetric} {uuids : List (Option String)}
    (same : machines.map (·.uuid) = uuids) (aligned : reported.map (·.uuid) = uuids) (given : none ∉ uuids)
    (ips : ∀ m ∈ reported, m.ip ≠ none) {new : MachineMetric} (listed : new.uuid ∈ uuids) :
    UnlessOverflow (updateMachines reported machines new) fun result => result.map (·.uuid) = uuids := by
  have present : new.uuid ≠ none := fun none => given (none ▸ listed)
  obtain ⟨found, searched⟩ := searchString_fine MachineMetric.uuid present (l := machines)
    (fun x hx none => given (same ▸ none ▸ List.mem_map_of_mem (f := (·.uuid)) hx))
  rcases searchString_ok searched with ⟨rfl, others⟩ | ⟨before, old, after, rfl, rfl, is, _⟩
  · rw [← same] at listed
    obtain ⟨x, hx, equal⟩ := List.mem_map.mp listed
    exact absurd equal (others x hx)
  · have lengths := congrArg List.length (same.trans aligned.symm)
    have inside : before.length < reported.length := by
      simp only [List.length_map,List.length_append,List.length_cons] at lengths
      omega
    rw [updateMachines_found searched (List.getElem?_eq_getElem inside)]
    apply (updateMachine_fine (ips _ (List.getElem_mem inside))).bind
    intro result kept
    rw [← same]
    simp [UnlessOverflow,pure,Except.pure,kept]

/-- The loop over the machines of a report. -/
theorem machines_fine {reported : List MachineMetric} {uuids : List (Option String)}
    (aligned : reported.map (·.uuid) = uuids) (given : none ∉ uuids) (ips : ∀ m ∈ reported, m.ip ≠ none)
    (news : List MachineMetric) (known : ∀ m ∈ news, m.uuid ∈ uuids) {machines : List MachineMetric}
    (same : machines.map (·.uuid) = uuids) :
    UnlessOverflow (news.foldlM (updateMachines reported) machines) fun result =>
      result.map (·.uuid) = uuids := by
  induction news generalizing machines with
  | nil => exact same
  | cons m rest ih =>
    rw [List.foldlM_cons]
    exact (updateMachines_fine same aligned given ips (known m List.mem_cons_self)).bind fun result kept =>
      ih (fun x hx => known x (List.mem_cons_of_mem _ hx)) kept

/-- Reports that have an ip, and machines that have all their strings. -/
def Complete (reports : List HostMetric) : Prop :=
  ∀ r ∈ reports, r.ip ≠ none ∧ ∀ m ∈ r.machines, m.ip ≠ none ∧ m.uuid ≠ none

/-- Each host lists the same machines in the same order every time. -/
def Steady (reports : List HostMetric) : Prop :=
  ∀ r ∈ reports, ∀ r' ∈ reports, r.ip = r'.ip → r.machines.map (·.uuid) = r'.machines.map (·.uuid)

/-- Entries that any of the reports can still update. -/
def Updatable (reports hosts : List HostMetric) : Prop :=
  ∀ h ∈ hosts, h.ip ≠ none ∧
    ∀ r ∈ reports, r.ip = h.ip → h.machines.map (·.uuid) = r.machines.map (·.uuid)

theorem updateHost_fine {old new : HostMetric} (complete : ∀ m ∈ new.machines, m.ip ≠ none ∧ m.uuid ≠ none)
    (same : old.machines.map (·.uuid) = new.machines.map (·.uuid)) :
    UnlessOverflow (updateHost old new) fun result =>
      result.ip = new.ip ∧ result.machines.map (·.uuid) = new.machines.map (·.uuid) := by
  have given : none ∉ new.machines.map (·.uuid) := fun member => by
    obtain ⟨m, hm, none⟩ := List.mem_map.mp member
    exact (complete m hm).2 none
  refine (checkedSmoothInt_fine old.ramUsageTotalAverage new.ramUsageTotalAverage).bind fun usage _ => ?_
  exact (machines_fine rfl given (fun m hm => (complete m hm).1) new.machines
    (fun m hm => List.mem_map_of_mem hm) same).bind fun machines kept => ⟨rfl, kept⟩

theorem setHostUtility_fine {reports hosts : List HostMetric} (complete : Complete reports)
    (steady : Steady reports) (updatable : Updatable reports hosts) (msg : Option HostMetric)
    (among : ∀ r, msg = some r → r ∈ reports) :
    UnlessOverflow (setHostUtility hosts msg) (Updatable reports) := by
  cases msg with
  | none => exact updatable
  | some r =>
    have member := among r rfl
    obtain ⟨ip, machines⟩ := complete r member
    obtain ⟨found, searched⟩ := searchString_fine HostMetric.ip ip (l := hosts)
      fun h hh => (updatable h hh).1
    rcases searchString_ok searched with ⟨rfl, _⟩ | ⟨before, old, after, rfl, rfl, is, _⟩
    · rw [setHostUtility_fresh searched]
      intro h hh
      rcases List.mem_append.mp hh with old | new
      · exact updatable h old
      · cases List.mem_singleton.mp new
        exact ⟨ip, fun r' hr' same => steady r member r' hr' same.symm⟩
    · rw [setHostUtility_listed searched]
      refine (updateHost_fine machines ((updatable old (by simp)).2 r member is.symm)).bind
        fun result ⟨sameIp, sameMachines⟩ h hh => ?_
      rcases List.mem_append.mp hh with early | late
      · exact updatable h (List.mem_append_left _ early)
      · rcases List.mem_cons.mp late with rfl | late
        · refine ⟨sameIp ▸ ip, fun r' hr' same => ?_⟩
          rw [sameMachines]
          exact steady r member r' hr' (sameIp ▸ same.symm)
        · exact updatable h (List.mem_append_right _ (List.mem_cons_of_mem _ late))

/-- Every table a run over some of the messages reaches can take the others. -/
theorem run_updatable {messages past : List (Option HostMetric)} (complete : Complete (reports messages))
    (steady : Steady (reports messages)) (inside : past ⊆ messages) {hosts : List HostMetric}
    (h : Runs.run step [] past = some hosts) : Updatable (reports messages) hosts := by
  refine Runs.run_history (fun past hosts => past ⊆ messages → Updatable (reports messages) hosts)
    (fun _ => by simp [Updatable]) (fun first hosts msg next _ good taken inside => ?_) h inside
  obtain ⟨early, new⟩ := List.append_subset.mp inside
  have fine := setHostUtility_fine complete steady (good early) msg fun r is =>
    List.mem_filterMap.mpr ⟨msg, new List.mem_cons_self, is⟩
  rw [step_ok.mp taken] at fine
  exact fine

/-- For every sequence of messages, a table that is reached is the keyed fold of the
reports; and all reports are taken in when they are complete, each host lists the same
machines every time, and no integer average overflows. -/
theorem host_table (messages : List (Option HostMetric)) :
    (∀ final, Runs.run step [] messages = some final → TableOf (reports messages) final) ∧
    (Complete (reports messages) → Steady (reports messages) →
      Runs.Each step [] messages (fun hosts msg => setHostUtility hosts msg ≠ .error .overflow) →
      ∃ final, Runs.run step [] messages = some final) := by
  refine ⟨fun final => run_tableOf, fun complete steady bounded => Runs.each_total ?_⟩
  intro past msg rest mid split before
  have updatable := run_updatable complete steady (split ▸ List.subset_append_left _ _) before
  have fine := setHostUtility_fine complete steady updatable msg fun r is =>
    List.mem_filterMap.mpr ⟨msg, split ▸ by simp, is⟩
  cases result : setHostUtility mid msg with
  | ok next => exact ⟨next, step_ok.mpr result⟩
  | error fault =>
    rw [result] at fine
    exact absurd (fine ▸ result) (bounded past msg rest mid split before)

/-- Two reports of one host with another host's between them. -/
def interleavedReports : List (Option HostMetric) :=
  [some ⟨some "10.0.0.1", 4, 2, 1 / 2, 8, 30, [⟨some "10.0.1.1", some "a", 1, 1, 1, 5⟩]⟩,
    some ⟨some "10.0.0.2", 8, 4, 1 / 4, 16, 20, []⟩,
    some ⟨some "10.0.0.1", 4, 2, 1, 8, 3, [⟨some "10.0.1.1", some "a", 1, 0, 1, 14⟩]⟩]

theorem host_table_interleaved : ∃ final, Runs.run step [] interleavedReports = some final ∧
    TableOf (reports interleavedReports) final ∧
    final.map (·.ip) = [some "10.0.0.1", some "10.0.0.2"] := by
  obtain ⟨folds, runs⟩ := host_table interleavedReports
  have complete : Complete (reports interleavedReports) := by
    simp [Complete,reports,interleavedReports]
  have steady : Steady (reports interleavedReports) := by
    simp [Steady,reports,interleavedReports]
  have bounded : Runs.Each step [] interleavedReports fun hosts msg =>
      setHostUtility hosts msg ≠ .error .overflow := by
    refine Runs.each_cons.mpr ⟨nofun, fun next taken => ?_⟩
    cases taken
    refine Runs.each_cons.mpr ⟨nofun, fun next taken => ?_⟩
    cases taken
    refine Runs.each_cons.mpr ⟨nofun, fun _ _ => Runs.each_nil _ _ _⟩
  obtain ⟨final, h⟩ := runs complete steady bounded
  exact ⟨final, h, folds final h, (folds final h).order⟩

end Hpvc.Monitor
