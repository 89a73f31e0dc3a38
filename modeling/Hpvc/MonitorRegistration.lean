import Hpvc.MonitorMachines
import Mathlib.Data.Finset.Card

/-! Machines that a report adds to a stored host. The larger array for them is made and then
left unused, so that the write of the new machine ends the server: only reports of machines
that the host's first report listed are taken in. -/
namespace Hpvc.Monitor

/-- The host's table has no machine with the uuid of `m`. -/
def NewTo (old : HostMetric) (m : MachineMetric) : Prop := m.uuid ∉ old.machines.map (·.uuid)

/-- After the report the table of host `k` has its old entries, and behind them one entry for each
uuid that is new, in the report's order and with the report's values. -/
def Registers (hosts : List HostMetric) (k : Nat) (old report : HostMetric) : Prop :=
  ∃ host added, setHostUtility hosts (some report) = .ok (hosts.set k host) ∧
    host.machines.map (·.uuid) = old.machines.map (·.uuid) ++ added.map (·.uuid) ∧
    host.machines.drop old.machines.length = added ∧
    added.Sublist report.machines ∧ (added.map (·.uuid)).Nodup ∧
    ∀ uuid, uuid ∈ added.map (·.uuid) ↔ ∃ m ∈ report.machines, NewTo old m ∧ m.uuid = uuid

/-- The uuids that the reports of a host have listed. -/
def uuidsOf (ip : Option String) (reports : List HostMetric) : List (Option String) :=
  (reports.filter (·.ip == ip)).flatMap fun r => r.machines.map (·.uuid)

/-- All messages are taken in, and every host has as many entries as its reports had uuids. -/
def CountsUuids (messages : List (Option HostMetric)) : Prop :=
  ∃ final, Runs.run step [] messages = some final ∧
    ∀ h ∈ final, h.machines.length = (uuidsOf h.ip (reports messages)).toFinset.card

theorem mem_uuidsOf {ip uuid : Option String} {reports : List HostMetric} :
    uuid ∈ uuidsOf ip reports ↔ ∃ r ∈ reports, r.ip = ip ∧ uuid ∈ r.machines.map (·.uuid) := by
  simp [uuidsOf,and_assoc]

/-- The loop over a report's machines that ends has met stored ones only. -/
theorem machines_stored {reported news machines result : List MachineMetric}
    (updated : news.foldlM (updateMachines reported) machines = .ok result) :
    result.map (·.uuid) = machines.map (·.uuid) ∧ ∀ m ∈ news, m.uuid ∈ machines.map (·.uuid) := by
  induction news generalizing machines with
  | nil => cases updated; simp
  | cons m rest ih =>
    rw [List.foldlM_cons] at updated
    obtain ⟨next, first, later⟩ := bind_ok updated
    obtain ⟨kept, stored⟩ := ih later
    have same := @updateMachines_uuids checked _ _ _ _ first
    rw [same] at kept stored
    exact ⟨kept, List.forall_mem_cons.mpr ⟨@updateMachines_stored checked _ _ _ _ first, stored⟩⟩

theorem updateHost_stored {old report result : HostMetric} (updated : updateHost old report = .ok result) :
    result.ip = report.ip ∧ result.machines.map (·.uuid) = old.machines.map (·.uuid) ∧
      ∀ m ∈ report.machines, ¬ NewTo old m := by
  obtain ⟨_, _, updated⟩ := bind_ok updated
  obtain ⟨machines, looped, updated⟩ := bind_ok updated
  cases updated
  obtain ⟨kept, stored⟩ := machines_stored looped
  exact ⟨rfl, kept, fun m member new => new (stored m member)⟩

/-- A report of a stored host that is taken in updates its entry. -/
theorem served_updated {hosts next : List HostMetric} {k : Nat} {old report : HostMetric}
    (found : findHost hosts report.ip = .ok (some k)) (entry : hosts[k]? = some old)
    (served : setHostUtility hosts (some report) = .ok next) :
    ∃ result, updateHost old report = .ok result ∧ next = hosts.set k result := by
  rw [setHostUtility] at served
  obtain ⟨searched, is, served⟩ := bind_ok served
  cases found.symm.trans is
  simp only [entry] at served
  obtain ⟨result, updated, taken⟩ := bind_ok served
  cases taken
  exact ⟨result, updated, rfl⟩

/-- A report that is taken in brings a stored host no new machine. -/
theorem served_stored {hosts next : List HostMetric} {k : Nat} {old report : HostMetric}
    (found : findHost hosts report.ip = .ok (some k)) (entry : hosts[k]? = some old)
    (served : setHostUtility hosts (some report) = .ok next) : ∀ m ∈ report.machines, ¬ NewTo old m := by
  obtain ⟨result, updated, _⟩ := served_updated found entry served
  exact (updateHost_stored updated).2.2

/-- So what is registered is exactly what is taken in, and then there is nothing to append. -/
theorem registers_iff_served {hosts : List HostMetric} {k : Nat} {old report : HostMetric}
    (found : findHost hosts report.ip = .ok (some k)) (entry : hosts[k]? = some old) :
    Registers hosts k old report ↔ ∃ next, setHostUtility hosts (some report) = .ok next := by
  refine ⟨fun ⟨_, _, served, _⟩ => ⟨_, served⟩, fun ⟨next, served⟩ => ?_⟩
  obtain ⟨result, updated, rfl⟩ := served_updated found entry served
  obtain ⟨_, kept, stored⟩ := updateHost_stored updated
  have length : result.machines.length = old.machines.length := by simpa using congrArg List.length kept
  refine ⟨result, [], served, by simp [kept], by simp [length], by simp, by simp, fun uuid => ?_⟩
  simp only [List.map_nil,List.not_mem_nil,false_iff]
  rintro ⟨m, member, new, _⟩
  exact stored m member new

/-- The uuids of a host's entries are distinct, and those of its reports. -/
structure Registered (past : List HostMetric) (h : HostMetric) : Prop where
  once : (h.machines.map (·.uuid)).Nodup
  uuids : ∀ uuid, uuid ∈ h.machines.map (·.uuid) ↔ uuid ∈ uuidsOf h.ip past

theorem Registered.length {past : List HostMetric} {h : HostMetric} (registered : Registered past h) :
    h.machines.length = (uuidsOf h.ip past).toFinset.card := by
  have same : (uuidsOf h.ip past).toFinset = (h.machines.map (·.uuid)).toFinset := by
    ext uuid
    rw [List.mem_toFinset,List.mem_toFinset,registered.uuids]
  rw [same,List.toFinset_card_of_nodup registered.once,List.length_map]

/-- Every host that has reported is listed once, with its uuids. -/
structure AllRegistered (past hosts : List HostMetric) : Prop where
  distinct : (hosts.map (·.ip)).Nodup
  listed : ∀ r ∈ past, r.ip ∈ hosts.map (·.ip)
  each : ∀ h ∈ hosts, Registered past h

/-- A report of another host, or one that lists no new uuid, leaves an entry as it should be. -/
theorem Registered.later {past : List HostMetric} {h h' r : HostMetric} (registered : Registered past h)
    (ip : h'.ip = h.ip) (kept : h'.machines.map (·.uuid) = h.machines.map (·.uuid))
    (stored : r.ip = h.ip → ∀ m ∈ r.machines, ¬ NewTo h m) : Registered (past ++ [r]) h' := by
  refine ⟨kept ▸ registered.once, fun uuid => ?_⟩
  rw [kept,registered.uuids,mem_uuidsOf,mem_uuidsOf,ip]
  constructor
  · rintro ⟨x, before, own, lists⟩
    exact ⟨x, List.mem_append_left _ before, own, lists⟩
  · rintro ⟨x, member, own, lists⟩
    rcases List.mem_append.mp member with before | last
    · exact ⟨x, before, own, lists⟩
    · cases List.mem_singleton.mp last
      obtain ⟨m, inside, rfl⟩ := List.mem_map.mp lists
      have held := not_not.mp (stored own m inside)
      exact mem_uuidsOf.mp ((registered.uuids _).mp held)

/-- The report of a host that is not stored. -/
theorem AllRegistered.appended {past hosts : List HostMetric} {r : HostMetric} (all : AllRegistered past hosts)
    (once : (r.machines.map (·.uuid)).Nodup) (others : ∀ h ∈ hosts, h.ip ≠ r.ip) :
    AllRegistered (past ++ [r]) (hosts ++ [r]) := by
  have fresh : r.ip ∉ hosts.map (·.ip) := by
    intro listed
    obtain ⟨h, member, same⟩ := List.mem_map.mp listed
    exact others h member same
  refine ⟨?_, ?_, ?_⟩
  · rw [List.map_append]
    exact all.distinct.append (List.nodup_singleton _) (by simpa using fresh)
  · intro x member
    rw [List.map_append]
    rcases List.mem_append.mp member with earlier | last
    · exact List.mem_append_left _ (all.listed x earlier)
    · cases List.mem_singleton.mp last
      simp
  · intro h member
    rcases List.mem_append.mp member with earlier | last
    · exact (all.each h earlier).later rfl rfl fun own => absurd own.symm (others h earlier)
    · cases List.mem_singleton.mp last
      refine ⟨once, fun uuid => ?_⟩
      rw [mem_uuidsOf]
      constructor
      · exact fun lists => ⟨r, by simp, rfl, lists⟩
      · rintro ⟨x, member, own, lists⟩
        rcases List.mem_append.mp member with earlier | last
        · exact absurd (own ▸ all.listed x earlier) fresh
        · cases List.mem_singleton.mp last
          exact lists

/-- The report of a stored host, updated to `result`. -/
theorem AllRegistered.updated {past before after : List HostMetric} {r old result : HostMetric}
    (all : AllRegistered past (before ++ old :: after)) (is : old.ip = r.ip) (others : ∀ h ∈ before, h.ip ≠ r.ip)
    (taken : updateHost old r = .ok result) : AllRegistered (past ++ [r]) (before ++ result :: after) := by
  obtain ⟨ip, kept, stored⟩ := updateHost_stored taken
  have same : result.ip = old.ip := ip.trans is.symm
  have ips : (before ++ result :: after).map (·.ip) = (before ++ old :: after).map (·.ip) := by simp [same]
  refine ⟨ips ▸ all.distinct, ?_, ?_⟩
  · intro x member
    rw [ips]
    rcases List.mem_append.mp member with earlier | last
    · exact all.listed x earlier
    · cases List.mem_singleton.mp last
      simp [is]
  · have alone := all.distinct
    rw [List.map_append,List.map_cons] at alone
    intro h member
    rcases List.mem_append.mp member with earlier | later
    · exact (all.each h (List.mem_append_left _ earlier)).later rfl rfl fun own =>
        absurd own.symm (others h earlier)
    · rcases List.mem_cons.mp later with rfl | later
      · exact (all.each old (by simp)).later same kept fun _ => stored
      · have behind : h ∈ before ++ old :: after := by simp [later]
        refine (all.each h behind).later rfl rfl fun own => ?_
        have again : old.ip ∈ after.map (·.ip) := is.trans own ▸ List.mem_map_of_mem later
        have absent := (List.nodup_append.mp alone).2.1
        exact absurd again (List.nodup_cons.mp absent).1

/-- One report more, taken in. -/
theorem AllRegistered.step {past hosts next : List HostMetric} {r : HostMetric}
    (all : AllRegistered past hosts) (once : (r.machines.map (·.uuid)).Nodup)
    (served : setHostUtility hosts (some r) = .ok next) : AllRegistered (past ++ [r]) next := by
  obtain ⟨found, searched, _⟩ := bind_ok served
  rcases searchString_ok searched with ⟨rfl, others⟩ | ⟨before, old, after, rfl, rfl, is, others⟩
  · cases (setHostUtility_fresh searched).symm.trans served
    exact all.appended once others
  · rw [setHostUtility_listed searched] at served
    obtain ⟨result, updated, taken⟩ := bind_ok served
    cases taken
    exact all.updated is others updated

/-- Where all messages are taken in, the entries of every host are counted right. -/
theorem counts_iff {messages : List (Option HostMetric)}
    (once : ∀ r ∈ reports messages, (r.machines.map (·.uuid)).Nodup) :
    CountsUuids messages ↔ ∃ final, Runs.run step [] messages = some final := by
  refine ⟨fun ⟨final, served, _⟩ => ⟨final, served⟩, fun ⟨final, served⟩ => ⟨final, served, ?_⟩⟩
  have all : (∀ r ∈ reports messages, (r.machines.map (·.uuid)).Nodup) → AllRegistered (reports messages) final := by
    refine Runs.run_history (fun past hosts =>
      (∀ r ∈ reports past, (r.machines.map (·.uuid)).Nodup) → AllRegistered (reports past) hosts)
      (fun _ => ⟨by simp, by simp [reports], by simp⟩) (fun past mid msg next _ ih taken once => ?_) served
    have taken := step_ok.mp taken
    rw [reports,List.filterMap_append] at once ⊢
    have before := ih fun r member => once r (List.mem_append_left _ member)
    cases msg with
    | none =>
      cases taken
      simpa [reports] using before
    | some r => exact before.step (once r (by simp)) taken
  exact fun h member => ((all once).each h member).length

/-- No report that brings a stored host a new machine registers it, and no sequence with such a report is
counted right: it is not taken in. -/
theorem new_machine_lost {hosts : List HostMetric} {k : Nat} {old report : HostMetric}
    (found : findHost hosts report.ip = .ok (some k)) (entry : hosts[k]? = some old)
    (brings : ∃ m ∈ report.machines, NewTo old m) :
    ¬ Registers hosts k old report ∧
      ∀ before rest, Runs.run step [] before = some hosts → ¬ CountsUuids (before ++ some report :: rest) := by
  obtain ⟨m, member, new⟩ := brings
  constructor
  · rintro ⟨host, _, served, _⟩
    exact served_stored found entry served m member new
  · rintro before rest reached ⟨final, served, _⟩
    obtain ⟨mid, there, later⟩ := Runs.run_append_some served
    cases there.symm.trans reached
    rw [Runs.run_cons] at later
    obtain ⟨next, taken, _⟩ := Option.bind_eq_some_iff.mp later
    exact served_stored found entry (step_ok.mp taken) m member new

/-- The host with two machines reports a third one. -/
def thirdMachine : HostMetric :=
  { twoMachines with machines := [⟨some "10.0.1.3", some "c", 2, 1 / 4, 2, 7⟩] }

theorem new_machine_lost_third :
    ¬ Registers [twoMachines] 0 twoMachines thirdMachine ∧
      ∀ before rest, Runs.run step [] before = some [twoMachines] →
        ¬ CountsUuids (before ++ some thirdMachine :: rest) :=
  new_machine_lost rfl rfl ⟨⟨some "10.0.1.3", some "c", 2, 1 / 4, 2, 7⟩, by simp [thirdMachine],
    by simp [NewTo,twoMachines]⟩

theorem third_machine_unregistered :
    Runs.run step [] [some twoMachines] = some [twoMachines] ∧
      findHost [twoMachines] thirdMachine.ip = .ok (some 0) ∧
      (∃ m ∈ thirdMachine.machines, NewTo twoMachines m) ∧
      setHostUtility [twoMachines] (some thirdMachine) = .error .pastArray ∧
      ¬ Registers [twoMachines] 0 twoMachines thirdMachine ∧
      ¬ CountsUuids [some twoMachines, some thirdMachine] := by
  refine ⟨rfl, rfl, ⟨⟨some "10.0.1.3", some "c", 2, 1 / 4, 2, 7⟩, ?_, ?_⟩, rfl, ?_, ?_⟩
  · simp [thirdMachine]
  · simp [NewTo,twoMachines]
  · rintro ⟨host, _, served, _⟩
    cases served
  · rintro ⟨final, served, _⟩
    cases served

end Hpvc.Monitor
