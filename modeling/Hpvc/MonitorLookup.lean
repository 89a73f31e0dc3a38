import Hpvc.MonitorApi
import Hpvc.MonitorMachines
import Mathlib.Data.List.Perm.Subperm

/-! Which host a machine is looked up at. Entries of machines that have left a host stay in the
table, and the first entry with the ip is returned, so a host that is listed later is hidden by one
that had the machine before. -/
namespace Hpvc.Monitor

/-- A report, or a host in the table, has a machine with the ip. -/
def Lists (ip : String) (h : HostMetric) : Prop := ∃ m ∈ h.machines, m.ip = some ip

instance (ip : String) (h : HostMetric) : Decidable (Lists ip h) := inferInstanceAs (Decidable (∃ m ∈ _, _))

/-- The report that listed a machine with the ip last. -/
def lastLister (ip : String) (reports : List HostMetric) : Option HostMetric :=
  (reports.filter fun r => Lists ip r).getLast?

/-- Each lookup gives an entry of the host that listed the ip last. -/
def Current (reports hosts : List HostMetric) : Prop :=
  ∀ ip lister, lastLister ip reports = some lister →
    ∃ k i host, findMachine hosts (some ip) = .ok (some (k, i)) ∧ hosts[k]? = some host ∧ host.ip = lister.ip

def reportStep (hosts : List HostMetric) (report : HostMetric) : Option (List HostMetric) :=
  stepWrapped hosts (some report)

/-- At every time of a sequence, the reports so far have been taken in, and the lookups are current. -/
def AllCurrent (reports : List HostMetric) : Prop :=
  ∀ past rest, reports = past ++ rest → ∃ hosts, Runs.run reportStep [] past = some hosts ∧ Current past hosts

/-- Where a report goes: the first host with its ip, or the end of the table. -/
def homeIndex (hosts : List HostMetric) (report : HostMetric) : Nat := hosts.findIdx (·.ip == report.ip)

/-- The machines of a report are those stored first for the host, in any order. -/
def Fits (old report : HostMetric) : Prop :=
  (report.machines.map (·.uuid)).Perm ((old.machines.map (·.uuid)).take report.machines.length)

/-- What keeps the lookups current: each machine is reported once, the machines of a host in the table fit, no
host before it has an entry for a machine that it lists, and no ip that is found at it is lost. -/
structure Keeps (hosts : List HostMetric) (report : HostMetric) : Prop where
  once : (report.machines.map (·.uuid)).Nodup
  fits : ∀ old, hosts[homeIndex hosts report]? = some old → Fits old report
  seen : ∀ h ∈ hosts.take (homeIndex hosts report), ∀ ip, Lists ip report → ¬ Lists ip h
  kept : ∀ old, hosts[homeIndex hosts report]? = some old → ∀ ip, Lists ip old →
    (∀ h ∈ hosts.take (homeIndex hosts report), ¬ Lists ip h) →
      Lists ip report ∨ ∃ m ∈ old.machines.drop report.machines.length, m.ip = some ip

/-- The machines of a stored host can be told from each other, and all have an ip. -/
structure Told (h : HostMetric) : Prop where
  present : none ∉ h.machines.map (·.uuid)
  distinct : (h.machines.map (·.uuid)).Nodup
  ips : ∀ m ∈ h.machines, m.ip ≠ none

theorem uuid_mem_take {machines : List MachineMetric} {j n : Nat} {m : MachineMetric}
    (is : machines[j]? = some m) (below : j < n) : m.uuid ∈ (machines.map (·.uuid)).take n := by
  obtain ⟨bound, same⟩ := List.getElem?_eq_some_iff.mp is
  exact List.mem_take_iff_getElem.mpr ⟨j, by simp; omega, by simp [same]⟩

section Update
variable {old report : HostMetric}

theorem Fits.length_le (fits : Fits old report) : report.machines.length ≤ old.machines.length := by
  have same := fits.length_eq
  simp only [List.length_map,List.length_take] at same
  omega

/-- The stored machines that are reported are the first ones. -/
theorem Fits.listed_iff (fits : Fits old report) (distinct : (old.machines.map (·.uuid)).Nodup) {j : Nat}
    {m : MachineMetric} (is : old.machines[j]? = some m) :
    m.uuid ∈ report.machines.map (·.uuid) ↔ j < report.machines.length := by
  have at_j : (old.machines.map (·.uuid))[j]? = some m.uuid := by simp [is]
  rw [fits.mem_iff]
  constructor
  · intro member
    obtain ⟨i, bound, same⟩ := List.mem_take_iff_getElem.mp member
    have at_i : (old.machines.map (·.uuid))[i]? = some m.uuid := List.getElem?_eq_some_iff.mpr ⟨by omega, same⟩
    have equal : i = j := (List.getElem?_inj (by omega) distinct).mp (at_i.trans at_j.symm)
    omega
  · exact uuid_mem_take is

/-- Exactly the reports that fit are taken in. -/
theorem fits_iff (told : Told old) (once : (report.machines.map (·.uuid)).Nodup)
    (ips : ∀ m ∈ report.machines, m.ip ≠ none) :
    Fits old report ↔ (∀ r ∈ report.machines, r.uuid ∈ old.machines.map (·.uuid)) ∧
      Indexed wrapping report.machines old.machines (report.machines.map (·.uuid)) := by
  constructor
  · intro fits
    refine ⟨fun r member => ?_, fun j m is listed => ?_⟩
    · exact List.mem_of_mem_take (fits.subset (List.mem_map_of_mem (f := (·.uuid)) member))
    · have below := (fits.listed_iff told.distinct is).mp listed
      exact ⟨_, List.getElem?_eq_getElem below, ips _ (List.getElem_mem below), trivial⟩
  · rintro ⟨stored, indexed⟩
    have first : report.machines.map (·.uuid) ⊆
        (old.machines.map (·.uuid)).take report.machines.length := by
      intro uuid member
      obtain ⟨r, inside, rfl⟩ := List.mem_map.mp member
      obtain ⟨m, stored_m, same⟩ := List.mem_map.mp (stored r inside)
      obtain ⟨j, is⟩ := List.getElem?_of_mem stored_m
      obtain ⟨own, there, _⟩ := indexed j m is (same ▸ member)
      exact same ▸ uuid_mem_take is (List.getElem?_eq_some_iff.mp there).1
    exact (List.subperm_of_subset once first).perm_of_length_le (by simp)

theorem creditHost_uuids : (creditHost wrapping old report).machines.map (·.uuid) = old.machines.map (·.uuid) := by
  apply List.ext_getElem?
  intro j
  cases is : old.machines[j]? <;> simp [creditHost,is]

/-- The first entries get the ips of the report. -/
theorem creditHost_ips (fits : Fits old report) (distinct : (old.machines.map (·.uuid)).Nodup) :
    (creditHost wrapping old report).machines.map (·.ip) =
      report.machines.map (·.ip) ++ (old.machines.drop report.machines.length).map (·.ip) := by
  have enough := fits.length_le
  apply List.ext_getElem?
  intro j
  rw [List.getElem?_append,List.length_map,List.getElem?_map,List.getElem?_map,List.getElem?_map,
    List.getElem?_drop,creditHost,List.getElem?_mapIdx]
  split
  next below =>
    have is := List.getElem?_eq_getElem (Nat.lt_of_lt_of_le below enough)
    have there := List.getElem?_eq_getElem below
    rw [is,there,Option.map_some,creditedAt_own ((fits.listed_iff distinct is).mpr below) there]
    rfl
  next beyond =>
    rw [Nat.add_sub_cancel' (Nat.le_of_not_lt beyond)]
    cases is : old.machines[j]? with
    | none => rfl
    | some m =>
      rw [Option.map_some,creditedAt_other fun listed => beyond ((fits.listed_iff distinct is).mp listed)]

theorem creditHost_lists (fits : Fits old report) (distinct : (old.machines.map (·.uuid)).Nodup) (ip : String) :
    Lists ip (creditHost wrapping old report) ↔
      Lists ip report ∨ ∃ m ∈ old.machines.drop report.machines.length, m.ip = some ip := by
  have listed (h : HostMetric) : Lists ip h ↔ some ip ∈ h.machines.map (·.ip) := by simp [Lists]
  rw [listed,listed,creditHost_ips fits distinct,List.mem_append]
  simp [-List.map_drop]

theorem Told.creditHost (told : Told old) (fits : Fits old report) (ips : ∀ m ∈ report.machines, m.ip ≠ none) :
    Told (creditHost wrapping old report) where
  present := by
    rw [creditHost_uuids]
    exact told.present
  distinct := by
    rw [creditHost_uuids]
    exact told.distinct
  ips m member := by
    have listed := List.mem_map_of_mem (f := (·.ip)) member
    rw [creditHost_ips fits told.distinct,List.mem_append] at listed
    rcases listed with reported | stored
    · obtain ⟨m', inside, same⟩ := List.mem_map.mp reported
      exact same ▸ ips m' inside
    · obtain ⟨m', inside, same⟩ := List.mem_map.mp stored
      exact same ▸ told.ips m' (List.mem_of_mem_drop inside)

end Update

/-- A table as complete reports leave it. -/
structure Tidy (hosts : List HostMetric) : Prop where
  present : none ∉ hosts.map (·.ip)
  distinct : (hosts.map (·.ip)).Nodup
  told : ∀ h ∈ hosts, Told h

/-- The first host with an entry for the ip. -/
def firstLister (ip : String) (hosts : List HostMetric) : Option HostMetric := hosts.find? fun h => Lists ip h

/-- For each ip that was listed, the first host with an entry for it is the one that listed it last. -/
def Found (reports hosts : List HostMetric) : Prop :=
  ∀ ip lister, lastLister ip reports = some lister → ∃ host, firstLister ip hosts = some host ∧ host.ip = lister.ip

/-- No ip comes into the table without a report. -/
def Reported (reports hosts : List HostMetric) : Prop :=
  ∀ h ∈ hosts, ∀ ip, Lists ip h → ∃ lister, lastLister ip reports = some lister

section Report
variable {hosts reports : List HostMetric} {r : HostMetric}

/-- A report is appended, or updates the only host with its ip. -/
theorem report_cases (tidy : Tidy hosts) (ip : r.ip ≠ none) (ips : ∀ m ∈ r.machines, m.ip ≠ none)
    (once : (r.machines.map (·.uuid)).Nodup) :
    (r.ip ∉ hosts.map (·.ip) ∧ homeIndex hosts r = hosts.length ∧ reportStep hosts r = some (hosts ++ [r])) ∨
      ∃ before old after, hosts = before ++ old :: after ∧ old.ip = r.ip ∧
        homeIndex hosts r = before.length ∧
        ∀ next, reportStep hosts r = some next ↔ Fits old r ∧ next = before ++ creditHost wrapping old r :: after := by
  obtain ⟨found, searched⟩ := searchString_fine HostMetric.ip ip
    (fun h member none => tidy.present (none ▸ List.mem_map_of_mem (f := (·.ip)) member))
  rcases searchString_ok searched with ⟨rfl, others⟩ | ⟨before, old, after, rfl, rfl, is, others⟩
  · refine .inl ⟨fun member => ?_, ?_, stepWrapped_fresh searched⟩
    · obtain ⟨h, inside, same⟩ := List.mem_map.mp member
      exact others h inside same
    · exact List.findIdx_eq_length_of_false fun x member => by simpa using others x member
  · refine .inr ⟨before, old, after, rfl, is, ?_, fun next => ?_⟩
    · have none : before.findIdx (·.ip == r.ip) = before.length :=
        List.findIdx_eq_length_of_false fun x member => by simpa using others x member
      rw [homeIndex,List.findIdx_append,none,if_neg (Nat.lt_irrefl _)]
      simp [List.findIdx_cons,is]
    · have told : Told old := tidy.told old (by simp)
      rw [reportStep,stepWrapped_listed searched,fits_iff told once ips]
      simp only [updateHost_ok_iff told.present told.distinct once]
      constructor
      · rintro ⟨_, ⟨⟨_, fits⟩, rfl⟩, rfl⟩
        exact ⟨fits, rfl⟩
      · rintro ⟨fits, rfl⟩
        exact ⟨_, ⟨⟨trivial, fits⟩, rfl⟩, rfl⟩

theorem Tidy.step {next : List HostMetric} (tidy : Tidy hosts) (ip : r.ip ≠ none)
    (machines : ∀ m ∈ r.machines, m.ip ≠ none ∧ m.uuid ≠ none) (once : (r.machines.map (·.uuid)).Nodup)
    (taken : reportStep hosts r = some next) : Tidy next := by
  have ips (m : MachineMetric) (member : m ∈ r.machines) := (machines m member).1
  rcases report_cases tidy ip ips once with ⟨fresh, _, appended⟩ | ⟨before, old, after, rfl, is, _, updated⟩
  · cases appended.symm.trans taken
    have told : Told r := ⟨by simpa using fun m member => (machines m member).2, once, ips⟩
    refine ⟨by simp [tidy.present,ip.symm], ?_, ?_⟩
    · rw [List.map_append]
      exact tidy.distinct.append (List.nodup_singleton _) (by simpa using fresh)
    · intro h member
      rcases List.mem_append.mp member with stored | new
      · exact tidy.told h stored
      · exact List.mem_singleton.mp new ▸ told
  · obtain ⟨fits, rfl⟩ := (updated next).mp taken
    have same : (before ++ creditHost wrapping old r :: after).map (·.ip) = (before ++ old :: after).map (·.ip) := by
      simp [creditHost,is]
    refine ⟨same ▸ tidy.present, same ▸ tidy.distinct, fun h member => ?_⟩
    rcases List.mem_append.mp member with early | late
    · exact tidy.told h (by simp [early])
    · rcases List.mem_cons.mp late with rfl | late
      · exact (tidy.told old (by simp)).creditHost fits ips
      · exact tidy.told h (by simp [late])

theorem lastLister_snoc (ip : String) (reports : List HostMetric) (r : HostMetric) :
    lastLister ip (reports ++ [r]) = if Lists ip r then some r else lastLister ip reports := by
  unfold lastLister
  rw [List.filter_append]
  by_cases lists : Lists ip r
  · simp [lists]
  · simp [lists]

theorem Reported.step {next : List HostMetric} (reported : Reported reports hosts) (tidy : Tidy hosts)
    (ip : r.ip ≠ none) (ips : ∀ m ∈ r.machines, m.ip ≠ none) (once : (r.machines.map (·.uuid)).Nodup)
    (taken : reportStep hosts r = some next) : Reported (reports ++ [r]) next := by
  have known (h : HostMetric) (ip : String) (lists : Lists ip r ∨ (h ∈ hosts ∧ Lists ip h)) :
      ∃ lister, lastLister ip (reports ++ [r]) = some lister := by
    rw [lastLister_snoc]
    split
    next => exact ⟨r, rfl⟩
    next others => exact reported h (lists.resolve_left others).1 ip (lists.resolve_left others).2
  intro h member address lists
  rcases report_cases tidy ip ips once with ⟨_, _, appended⟩ | ⟨before, old, after, rfl, _, _, updated⟩
  · cases appended.symm.trans taken
    rcases List.mem_append.mp member with stored | new
    · exact known h address (.inr ⟨stored, lists⟩)
    · exact known h address (.inl (List.mem_singleton.mp new ▸ lists))
  · obtain ⟨fits, rfl⟩ := (updated next).mp taken
    rcases List.mem_append.mp member with early | late
    · exact known h address (.inr ⟨by simp [early], lists⟩)
    · rcases List.mem_cons.mp late with rfl | late
      · rcases (creditHost_lists fits (tidy.told old (by simp)).distinct address).mp lists with now | ⟨m, inside, is⟩
        · exact known old address (.inl now)
        · exact known old address (.inr ⟨by simp, m, List.mem_of_mem_drop inside, is⟩)
      · exact known h address (.inr ⟨by simp [late], lists⟩)

end Report

theorem firstLister_append (ip : String) (before rest : List HostMetric) :
    firstLister ip (before ++ rest) = (firstLister ip before).or (firstLister ip rest) := List.find?_append

theorem firstLister_cons (ip : String) (h : HostMetric) (rest : List HostMetric) :
    firstLister ip (h :: rest) = if Lists ip h then some h else firstLister ip rest := by
  by_cases lists : Lists ip h <;> simp [firstLister,lists]

theorem firstLister_none {ip : String} {hosts : List HostMetric} :
    firstLister ip hosts = none ↔ ∀ h ∈ hosts, ¬ Lists ip h := by
  simp [firstLister]

theorem firstLister_mem {ip : String} {hosts : List HostMetric} {h : HostMetric}
    (first : firstLister ip hosts = some h) : h ∈ hosts := List.mem_of_find?_eq_some first

/-- A lookup searches for the first host with an entry. -/
theorem findMachine_first {hosts : List HostMetric} (tidy : Tidy hosts) (ip : String) :
    (firstLister ip hosts = none ∧ findMachine hosts (some ip) = .ok none) ∨
      ∃ k i host, firstLister ip hosts = some host ∧ findMachine hosts (some ip) = .ok (some (k, i)) ∧
        hosts[k]? = some host := by
  obtain ⟨found, searched⟩ := findMachine_fine (fun h member => (tidy.told h member).ips) ip
  rcases findMachine_ok searched with ⟨rfl, none⟩ | ⟨before, h, after, i, m, rfl, at_i, rfl, has, others⟩
  · refine .inl ⟨firstLister_none.mpr ?_, searched⟩
    rintro h inside ⟨m, member, is⟩
    exact none h inside m member is
  · refine .inr ⟨before.length, i, h, ?_, searched, by simp⟩
    have earlier : firstLister ip before = none := by
      apply firstLister_none.mpr
      rintro h' inside ⟨m', member, is⟩
      exact others h' inside m' member is
    have lists : Lists ip h := ⟨m, List.mem_of_getElem? at_i, has⟩
    rw [firstLister_append,earlier,firstLister_cons,if_pos lists]
    rfl

theorem current_iff {reports hosts : List HostMetric} (tidy : Tidy hosts) :
    Current reports hosts ↔ Found reports hosts := by
  apply forall_congr'
  intro ip
  apply forall_congr'
  intro lister
  apply imp_congr_right
  intro _
  rcases findMachine_first tidy ip with ⟨none, searched⟩ | ⟨k, i, host, first, searched, there⟩
  · simp [none,searched]
  · rw [first,searched]
    constructor
    · rintro ⟨_, _, host', same, there', is⟩
      cases same
      cases there.symm.trans there'
      exact ⟨host, rfl, is⟩
    · rintro ⟨_, same, is⟩
      cases same
      exact ⟨k, i, host, rfl, there, is⟩

/-- A report of a host that is not in the table. -/
theorem found_appended {reports hosts : List HostMetric} {r : HostMetric} (found : Found reports hosts)
    (fresh : r.ip ∉ hosts.map (·.ip)) :
    Found (reports ++ [r]) (hosts ++ [r]) ↔ ∀ h ∈ hosts, ∀ ip, Lists ip r → ¬ Lists ip h := by
  constructor
  · intro after h member ip lists hides
    obtain ⟨host, first, is⟩ := after ip r (by rw [lastLister_snoc,if_pos lists])
    rw [firstLister_append] at first
    cases before : firstLister ip hosts with
    | none => exact firstLister_none.mp before h member hides
    | some h' =>
      rw [before] at first
      cases first
      exact fresh (is ▸ List.mem_map_of_mem (f := (·.ip)) (firstLister_mem before))
  · intro seen ip lister last
    rw [lastLister_snoc] at last
    rw [firstLister_append]
    split at last
    next lists =>
      cases last
      rw [firstLister_none.mpr fun h member => seen h member ip lists]
      exact ⟨r, by simp [firstLister,lists], rfl⟩
    next =>
      obtain ⟨host, first, is⟩ := found ip lister last
      exact ⟨host, by rw [first]; rfl, is⟩

section Updated
variable {reports before after : List HostMetric} {r old : HostMetric}

theorem Tidy.apart (tidy : Tidy (before ++ old :: after)) (h : HostMetric) (member : h ∈ before ∨ h ∈ after) :
    h.ip ≠ old.ip := by
  have distinct := tidy.distinct
  rw [List.map_append,List.map_cons,List.nodup_append] at distinct
  obtain ⟨_, late, cross⟩ := distinct
  rcases member with early | later
  · exact cross h.ip (List.mem_map_of_mem (f := (·.ip)) early) old.ip List.mem_cons_self
  · intro same
    exact (List.nodup_cons.mp late).1 (same ▸ List.mem_map_of_mem (f := (·.ip)) later)

/-- No host before the reporting one hides it. -/
theorem found_unseen (tidy : Tidy (before ++ old :: after)) (is : old.ip = r.ip)
    (next : Found (reports ++ [r]) (before ++ creditHost wrapping old r :: after)) {h : HostMetric}
    (member : h ∈ before) {ip : String} (lists : Lists ip r) : ¬ Lists ip h := by
  intro hides
  obtain ⟨host, first, same⟩ := next ip r (by rw [lastLister_snoc,if_pos lists])
  rw [firstLister_append] at first
  cases early : firstLister ip before with
  | none => exact firstLister_none.mp early h member hides
  | some h' =>
    rw [early] at first
    cases first
    exact tidy.apart _ (.inl (firstLister_mem early)) (same.trans is.symm)

/-- What the reporting host listed, it still lists. -/
theorem found_kept (tidy : Tidy (before ++ old :: after)) (reported : Reported reports (before ++ old :: after))
    (found : Found reports (before ++ old :: after))
    (next : Found (reports ++ [r]) (before ++ creditHost wrapping old r :: after)) {ip : String} (lists : Lists ip old)
    (none : ∀ h ∈ before, ¬ Lists ip h) : Lists ip r ∨ Lists ip (creditHost wrapping old r) := by
  by_contra lost
  obtain ⟨unlisted, gone⟩ := not_or.mp lost
  have early := firstLister_none.mpr none
  -- Before the report the lookup gave `old`, so `old` listed the ip last.
  obtain ⟨lister, last⟩ := reported old (by simp) ip lists
  obtain ⟨host, first, same⟩ := found ip lister last
  rw [firstLister_append,early,firstLister_cons,if_pos lists] at first
  cases first
  obtain ⟨host, first, again⟩ := next ip lister (by rw [lastLister_snoc,if_neg unlisted]; exact last)
  rw [firstLister_append,early,firstLister_cons,if_neg gone] at first
  exact tidy.apart host (.inr (firstLister_mem first)) (again.trans same.symm)

/-- A report that is taken in for the host `old`. -/
theorem found_updated (tidy : Tidy (before ++ old :: after))
    (reported : Reported reports (before ++ old :: after)) (found : Found reports (before ++ old :: after))
    (is : old.ip = r.ip) (fits : Fits old r) :
    Found (reports ++ [r]) (before ++ creditHost wrapping old r :: after) ↔
      (∀ h ∈ before, ∀ ip, Lists ip r → ¬ Lists ip h) ∧
        ∀ ip, Lists ip old → (∀ h ∈ before, ¬ Lists ip h) →
          Lists ip r ∨ ∃ m ∈ old.machines.drop r.machines.length, m.ip = some ip := by
  have lists_iff := creditHost_lists fits (tidy.told old (by simp)).distinct
  constructor
  · intro next
    refine ⟨fun h member ip lists => found_unseen tidy is next member lists, fun ip lists none => ?_⟩
    rcases found_kept tidy reported found next lists none with now | still
    · exact .inl now
    · exact (lists_iff ip).mp still
  · rintro ⟨seen, kept⟩ ip lister last
    rw [lastLister_snoc] at last
    rw [firstLister_append,firstLister_cons]
    split at last
    next lists =>
      cases last
      rw [firstLister_none.mpr fun h member => seen h member ip lists,if_pos ((lists_iff ip).mpr (.inl lists))]
      exact ⟨_, rfl, rfl⟩
    next others =>
      obtain ⟨host, first, same⟩ := found ip lister last
      rw [firstLister_append,firstLister_cons] at first
      cases early : firstLister ip before with
      | some h =>
        rw [early] at first
        cases first
        exact ⟨_, rfl, same⟩
      | none =>
        rw [early] at first
        by_cases lists : Lists ip old
        · rw [if_pos lists] at first
          cases first
          rw [if_pos ((lists_iff ip).mpr (kept ip lists (firstLister_none.mp early)))]
          exact ⟨_, rfl, is.symm.trans same⟩
        · have never : ¬ Lists ip (creditHost wrapping old r) := by
            intro now
            obtain ⟨m, inside, has⟩ := ((lists_iff ip).mp now).resolve_left others
            exact lists ⟨m, List.mem_of_mem_drop inside, has⟩
          rw [if_neg lists] at first
          rw [if_neg never]
          exact ⟨host, first, same⟩

end Updated

/-- One report, exactly: it is taken in and the lookups stay current where it meets the condition. -/
theorem found_step_iff {reports hosts : List HostMetric} {r : HostMetric} (tidy : Tidy hosts)
    (reported : Reported reports hosts) (found : Found reports hosts) (ip : r.ip ≠ none)
    (ips : ∀ m ∈ r.machines, m.ip ≠ none) (once : (r.machines.map (·.uuid)).Nodup) :
    (∃ next, reportStep hosts r = some next ∧ Found (reports ++ [r]) next) ↔ Keeps hosts r := by
  rcases report_cases tidy ip ips once with ⟨fresh, home, appended⟩ | ⟨before, old, after, rfl, is, home, updated⟩
  · have nobody (old : HostMetric) : hosts[homeIndex hosts r]? ≠ some old := by simp [home]
    have all : hosts.take (homeIndex hosts r) = hosts := by rw [home,List.take_length]
    rw [appended]
    constructor
    · rintro ⟨_, same, next⟩
      cases same
      refine ⟨once, fun old is => absurd is (nobody old), ?_, fun old is => absurd is (nobody old)⟩
      rw [all]
      exact (found_appended found fresh).mp next
    · intro keeps
      exact ⟨_, rfl, (found_appended found fresh).mpr (all ▸ keeps.seen)⟩
  · have entry : (before ++ old :: after)[homeIndex (before ++ old :: after) r]? = some old := by simp [home]
    have earlier : (before ++ old :: after).take (homeIndex (before ++ old :: after) r) = before := by simp [home]
    constructor
    · rintro ⟨next, taken, now⟩
      obtain ⟨fits, rfl⟩ := (updated next).mp taken
      obtain ⟨seen, kept⟩ := (found_updated tidy reported found is fits).mp now
      refine ⟨once, fun old' same => ?_, ?_, fun old' same => ?_⟩
      · cases entry.symm.trans same
        exact fits
      · rw [earlier]
        exact seen
      · cases entry.symm.trans same
        rw [earlier]
        exact kept
    · intro keeps
      have fits := keeps.fits old entry
      have kept := keeps.kept old entry
      rw [earlier] at kept
      exact ⟨_, (updated _).mpr ⟨fits, rfl⟩,
        (found_updated tidy reported found is fits).mpr ⟨earlier ▸ keeps.seen, kept⟩⟩

theorem empty_tidy : Tidy [] := ⟨by simp, by simp, by simp⟩

/-- A run that was taken in leaves the table in order. -/
theorem run_tidy {reports hosts : List HostMetric} (complete : Complete reports)
    (once : ∀ r ∈ reports, (r.machines.map (·.uuid)).Nodup)
    (reached : Runs.run reportStep [] reports = some hosts) : Tidy hosts ∧ Reported reports hosts := by
  revert complete once
  apply Runs.run_history (fun past mid => Complete past →
    (∀ r ∈ past, (r.machines.map (·.uuid)).Nodup) → Tidy mid ∧ Reported past mid) _ _ reached
  · exact fun _ _ => ⟨empty_tidy, by simp [Reported]⟩
  · intro past mid r next _ before taken complete once
    obtain ⟨tidy, reported⟩ := before (fun x member => complete x (List.mem_append_left _ member))
      fun x member => once x (List.mem_append_left _ member)
    obtain ⟨ip, machines⟩ := complete r (by simp)
    have single := once r (by simp)
    exact ⟨tidy.step ip machines single taken,
      reported.step tidy ip (fun m member => (machines m member).1) single taken⟩

/-- Reports that meet the condition are all taken in. -/
theorem keeps_found {reports : List HostMetric} (complete : Complete reports)
    (keeps : Runs.Each reportStep [] reports Keeps) :
    ∃ hosts, Runs.run reportStep [] reports = some hosts ∧ Tidy hosts ∧ Reported reports hosts ∧
      Found reports hosts := by
  induction reports using List.reverseRecOn with
  | nil => exact ⟨[], rfl, empty_tidy, by simp [Reported], by simp [Found,lastLister]⟩
  | append_singleton past r ih =>
    obtain ⟨earlier, now⟩ := Runs.each_snoc.mp keeps
    obtain ⟨hosts, reached, tidy, reported, found⟩ := ih
      (fun x member => complete x (List.mem_append_left _ member)) earlier
    obtain ⟨ip, machines⟩ := complete r (by simp)
    have ips (m : MachineMetric) (member : m ∈ r.machines) := (machines m member).1
    have once := (now hosts reached).once
    obtain ⟨next, taken, found⟩ := (found_step_iff tidy reported found ip ips once).mpr (now hosts reached)
    refine ⟨next, ?_, tidy.step ip machines once taken, reported.step tidy ip ips once taken, found⟩
    rw [Runs.run_snoc,reached]
    exact taken

/-- In every sequence of reports that all meet the condition when they come, each is taken in and every lookup
gives, at every time, an entry of the host that listed the machine last; and of reports that list each machine
once, only those sequences have this. -/
theorem lookup_current {reports : List HostMetric} (complete : Complete reports) :
    (Runs.Each reportStep [] reports Keeps → AllCurrent reports) ∧
      ((∀ r ∈ reports, (r.machines.map (·.uuid)).Nodup) → AllCurrent reports →
        Runs.Each reportStep [] reports Keeps) := by
  constructor
  · rintro keeps past rest rfl
    obtain ⟨hosts, reached, tidy, _, found⟩ := keeps_found
      (fun x member => complete x (List.mem_append_left _ member)) (Runs.each_of_append keeps)
    exact ⟨hosts, reached, (current_iff tidy).mpr found⟩
  · rintro once current past r rest mid rfl before
    obtain ⟨_, same, found⟩ := current past (r :: rest) rfl
    cases before.symm.trans same
    obtain ⟨next, onward, now⟩ := current (past ++ [r]) rest (by simp)
    have all := run_tidy (fun x member => complete x (List.mem_append_left _ member))
      (fun x member => once x (List.mem_append_left _ member)) before
    obtain ⟨tidy, reported⟩ := all
    obtain ⟨ip, machines⟩ := complete r (by simp)
    have single := once r (by simp)
    obtain ⟨_, there, taken⟩ := Runs.run_snoc_some onward
    cases before.symm.trans there
    apply (found_step_iff tidy reported ((current_iff tidy).mp found) ip
      (fun m member => (machines m member).1) single).mp
    exact ⟨next, taken, (current_iff (tidy.step ip machines single taken)).mp now⟩

/-- A host with one machine. -/
def hostWith (ip machineIp uuid : String) : HostMetric :=
  ⟨some ip, 4, 2, 1 / 2, 8, 30, [⟨some machineIp, some uuid, 1, 1, 1, 5⟩]⟩

theorem hostWith_lists {ip machineIp uuid address : String} :
    Lists address (hostWith ip machineIp uuid) ↔ machineIp = address := by
  simp [Lists,hostWith]

/-- Two hosts with their own machines, the first of which reports again. -/
def twoOwnHosts : List HostMetric :=
  [hostWith "10.0.0.1" "10.0.1.1" "a", hostWith "10.0.0.2" "10.0.1.2" "b", hostWith "10.0.0.1" "10.0.1.1" "a"]

theorem lookup_current_two : AllCurrent twoOwnHosts := by
  have keeps : Runs.Each reportStep [] twoOwnHosts Keeps := by
    refine Runs.each_cons.mpr ⟨⟨List.nodup_singleton _, ?_, by simp, ?_⟩, fun next taken => ?_⟩
    · rintro old ⟨⟩
    · rintro old ⟨⟩
    cases taken
    refine Runs.each_cons.mpr ⟨⟨List.nodup_singleton _, ?_, fun h member ip lists hides => ?_, ?_⟩,
      fun next taken => ?_⟩
    · rintro old ⟨⟩
    · obtain rfl := List.mem_singleton.mp member
      have same := (hostWith_lists.mp hides).trans (hostWith_lists.mp lists).symm
      exact absurd same (by decide)
    · rintro old ⟨⟩
    cases taken
    refine Runs.each_cons.mpr ⟨⟨List.nodup_singleton _, ?_, ?_, ?_⟩, fun _ _ => Runs.each_nil _ _ _⟩
    · rintro old ⟨⟩
      exact List.Perm.refl _
    · rintro h ⟨⟩
    · rintro old ⟨⟩ ip lists _
      exact .inl lists
  exact (lookup_current (by simp [Complete,twoOwnHosts,hostWith])).1 keeps

/-- The machine has moved from the first host to the second, which reports it: the lookup still gives the
entry of the first. -/
theorem lookup_stale :
    let first := hostWith "10.0.0.1" "10.0.1.1" "a"
    let second := hostWith "10.0.0.2" "10.0.1.1" "a"
    Complete [first, second] ∧ Runs.run reportStep [] [first, second] = some [first, second] ∧
      findMachine [first, second] (some "10.0.1.1") = .ok (some (0, 0)) ∧ ¬ AllCurrent [first, second] := by
  intro first second
  have found : findMachine [first, second] (some "10.0.1.1") = .ok (some (0, 0)) := rfl
  refine ⟨by simp [Complete,first,second,hostWith], rfl, found, fun always => ?_⟩
  obtain ⟨hosts, reached, current⟩ := always [first, second] [] rfl
  cases reached
  obtain ⟨k, i, host, searched, there, same⟩ := current "10.0.1.1" second rfl
  cases found.symm.trans searched
  cases there
  exact absurd same (by decide)

end Hpvc.Monitor
