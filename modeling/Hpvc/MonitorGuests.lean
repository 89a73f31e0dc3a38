import Hpvc.Library.KeyedTable
import Hpvc.MonitorMetrics

/-! The machines in the report of a monitor. Each is found by its uuid or appended, but the second one that is
appended gets neither its uuid nor its initialisation: the first is initialised again instead. -/
namespace Hpvc.Monitor

def QueryObject.guest : QueryObject → Option String
  | .machine uuid => some uuid
  | _ => none

/-- The machines among the objects, in the order in which they come first. -/
def guests (ms : List QueryMetric) : List String := KeyedTable.firsts id (ms.filterMap (·.object.guest))

/-- How often `machine_metric__init` was called for each element of the list. Where one is appended, it is
called for the first. -/
def initCalls (before after : List Machine) (calls : List Nat) : List Nat :=
  if after.length = before.length then calls else (calls ++ [0]).modify 0 (· + 1)

/-- `metricTurn`, and what it calls `machine_metric__init` for. -/
def countedTurn (q : Query) (s : Gathering × List Nat) (m : QueryMetric) : Option (Gathering × List Nat) :=
  (metricTurn q s.1 m).map fun next => (next, initCalls s.1.machines next.machines s.2)

def countedRun (q : Query) (metrics : HostMetric) (ms : List QueryMetric) : Option (Gathering × List Nat) :=
  ms.foldlM (countedTurn q) (⟨0, [], metrics⟩, [])

/-- The report has one entry for each machine. After every metric, there was one for each machine until then,
with its uuid, and each had been initialised once. -/
structure OneEntryEach (q : Query) (metrics result : HostMetric) : Prop where
  built : getMetrics q metrics = some result
  entries : result.machines.map (·.uuid) = (guests q.metrics).map some
  always : ∀ before after, q.metrics = before ++ after → ∃ s calls,
    countedRun q metrics before = some (s, calls) ∧
      s.machines.map (·.metrics.uuid) = (guests before).map some ∧ calls = (guests before).map fun _ => 1

theorem guests_snoc (ms : List QueryMetric) (m : QueryMetric) : guests (ms ++ [m]) =
    m.object.guest.elim (guests ms) fun uuid => if uuid ∈ guests ms then guests ms else guests ms ++ [uuid] := by
  rw [guests,List.filterMap_append]
  cases is : m.object.guest with
  | none => simp [is,guests]
  | some uuid =>
    simp only [List.filterMap_cons,is,List.filterMap_nil,KeyedTable.firsts_snoc]
    rfl

/-- While all guests are this machine, the list has it alone, initialised once, or is empty. -/
inductive Alone (uuid : String) : List String → List Machine → List Nat → Prop where
  | none {machines : List Machine} (held : Held none machines) : Alone uuid [] machines []
  | one {machines : List Machine} (held : Held (some uuid) machines) : Alone uuid [uuid] machines [1]

theorem Alone.uuids {uuid : String} {names : List String} {machines : List Machine} {calls : List Nat}
    (alone : Alone uuid names machines calls) : machines.map (·.metrics.uuid) = names.map some ∧
      calls = names.map (fun _ => 1) ∧ ¬ Spoiled machines := by
  cases alone with
  | none held =>
    cases held
    simp [Spoiled]
  | one held =>
    obtain ⟨metrics, rfl, is⟩ := held
    simp [is,Spoiled]

theorem countedTurn_alone {q : Query} {uuid : String} {names : List String} {s : Gathering} {calls : List Nat}
    (alone : Alone uuid names s.machines calls) {m : QueryMetric}
    (own : ∀ other, m.object = .machine other → other = uuid) : ∃ next calls',
      countedTurn q (s, calls) m = some (next, calls') ∧
        Alone uuid (m.object.guest.elim names fun u => if u ∈ names then names else names ++ [u])
          next.machines calls' := by
  by_cases guest : ∃ other, m.object = .machine other
  · obtain ⟨other, object⟩ := guest
    obtain rfl := own other object
    rw [countedTurn,metricTurn_guest q s object,object]
    cases alone with
    | none empty =>
      obtain ⟨next, turned, held⟩ := @guestTurn_held none s.machines empty m.name (resTurn q s.res m) other
      have held : Held (some other) next := held
      obtain ⟨metrics, rfl, is⟩ := held
      refine ⟨⟨resTurn q s.res m, _, s.metrics⟩, [1], ?_, .one ⟨metrics, rfl, is⟩⟩
      rw [turned]
      have empty : s.machines = [] := empty
      simp [initCalls,empty]
    | one held =>
      obtain ⟨next, turned, kept⟩ := guestTurn_held held m.name (resTurn q s.res m) other
      have kept : Held (some other) next := by simpa using kept
      have single : ∀ machines, Held (some other) machines → machines.length = 1 := by
        rintro machines ⟨metrics, rfl, _⟩
        rfl
      refine ⟨⟨resTurn q s.res m, next, s.metrics⟩, [1], ?_, ?_⟩
      · simp [turned,initCalls,single _ held,single _ kept]
      · simpa [QueryObject.guest] using Alone.one kept
  · obtain ⟨next, turned, machines⟩ := metricTurn_rest q s (not_exists.mp guest)
    have no_guest : m.object.guest = none := by
      cases object : m.object with
      | machine other => exact absurd ⟨other, object⟩ guest
      | host interfaces memorySize => rfl
      | other => rfl
    refine ⟨next, calls, ?_, ?_⟩
    · simp [countedTurn,turned,initCalls,machines]
    · rw [no_guest]
      exact machines ▸ alone

theorem countedRun_alone {q : Query} {uuid : String} {ms : List QueryMetric} (metrics : HostMetric)
    (one : GuestsAre uuid ms) : ∃ s calls, countedRun q metrics ms = some (s, calls) ∧
      Alone uuid (guests ms) s.machines calls := by
  induction ms using List.reverseRecOn with
  | nil => exact ⟨_, _, rfl, .none rfl⟩
  | append_singleton ms m ih =>
    obtain ⟨s, calls, earlier, alone⟩ := ih fun m' member => one m' (List.mem_append_left _ member)
    obtain ⟨next, calls', turned, still⟩ := @countedTurn_alone q _ _ _ _ alone m (one m (by simp))
    refine ⟨next, calls', ?_, guests_snoc ms m ▸ still⟩
    rw [countedRun] at earlier ⊢
    rw [List.foldlM_append,earlier]
    simp [turned]

/-- What is counted changes nothing in the run. -/
theorem countedRun_run {q : Query} {metrics : HostMetric} {ms : List QueryMetric} {s : Gathering} {calls : List Nat}
    (run : countedRun q metrics ms = some (s, calls)) : ms.foldlM (metricTurn q) ⟨0, [], metrics⟩ = some s := by
  induction ms using List.reverseRecOn generalizing s calls with
  | nil =>
    cases run
    rfl
  | append_singleton ms m ih =>
    rw [countedRun,List.foldlM_append] at run
    obtain ⟨⟨mid, before⟩, earlier, last⟩ := Option.bind_eq_some_iff.mp run
    simp only [List.foldlM_cons,List.foldlM_nil,countedTurn,Option.bind_eq_bind,Option.bind_map] at last
    rw [List.foldlM_append,ih earlier]
    obtain ⟨next, turned, same⟩ := Option.bind_eq_some_iff.mp last
    cases same
    simp [turned]

/-- The report has one entry for each machine exactly if there is no more than one. -/
theorem one_entry_each_iff (q : Query) (metrics : HostMetric) :
    (∃ result, OneEntryEach q metrics result) ↔ ∃ uuid, GuestsAre uuid q.metrics := by
  have none_held : Held none (⟨0, [], metrics⟩ : Gathering).machines := rfl
  constructor
  · rintro ⟨result, built, _⟩
    obtain ⟨final, run, fine, _⟩ := getMetrics_some.mp built
    obtain ⟨uuid, _, one⟩ := (run_guests_iff none_held).mp ⟨final, run, fine⟩
    exact ⟨uuid, one⟩
  · rintro ⟨uuid, one⟩
    obtain ⟨s, calls, run, alone⟩ := countedRun_alone metrics one
    obtain ⟨uuids, _, fine⟩ := alone.uuids
    have built := getMetrics_some.mpr ⟨s, countedRun_run run, fine, rfl⟩
    refine ⟨_, built, by rw [← uuids,List.map_map]; rfl, fun before after split => ?_⟩
    have earlier : GuestsAre uuid before := fun m member => one m (split ▸ List.mem_append_left _ member)
    obtain ⟨mid, calls', reached, alone⟩ := @countedRun_alone q uuid before metrics earlier
    exact ⟨mid, calls', reached, alone.uuids.1, alone.uuids.2.1⟩

/-- A metric of the host, and one of each of two machines. -/
def twoGuests : Query where
  data := [30, 40, 50]
  metrics := [⟨"RAM/Usage/Total:avg", .host ["10.0.0.1"] 8192, 0, 1⟩,
    ⟨"Guest/RAM/Usage/Total:avg", .machine "a", 1, 1⟩, ⟨"Guest/RAM/Usage/Total:avg", .machine "b", 2, 1⟩]
  inside := by decide

/-- The uuid of the first machine is erased, and the second machine has none. -/
theorem two_guests_spoiled : guests twoGuests.metrics = ["a", "b"] ∧
    (countedRun twoGuests hostInit twoGuests.metrics).map
      (fun s => (s.1.machines.map (·.metrics.uuid), s.1.machines.map (·.initialised), s.2)) =
        some ([none, none], [true, false], [2, 0]) ∧
    ¬ ∃ result, OneEntryEach twoGuests hostInit result := by
  refine ⟨by decide, by decide +kernel, ?_⟩
  rintro ⟨result, built, _⟩
  obtain ⟨final, run, fine, _⟩ := getMetrics_some.mp built
  obtain ⟨uuid, _, one⟩ := (@run_guests_iff twoGuests none twoGuests.metrics ⟨0, [], hostInit⟩ rfl).mp
    ⟨final, run, fine⟩
  have first := one ⟨"Guest/RAM/Usage/Total:avg", .machine "a", 1, 1⟩ (by simp [twoGuests]) "a" rfl
  have second := one ⟨"Guest/RAM/Usage/Total:avg", .machine "b", 2, 1⟩ (by simp [twoGuests]) "b" rfl
  exact absurd (first.trans second.symm) (by decide)

end Hpvc.Monitor
