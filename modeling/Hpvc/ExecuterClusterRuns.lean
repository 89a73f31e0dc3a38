import Hpvc.ExecuterJourney

/-! Journeys among known hosts do not get stuck: every step of the teleports goes through,
and the actors wait for their sockets again after it. -/
namespace Hpvc.Executer

/-- Between two teleports: the actor polls, and only targets it has contacted have replied. -/
structure Idle (s : State) : Prop where
  polls : s.mode = .polling
  answered : ∀ contact ∈ s.answered, contact < s.contacts.length

theorem request_goes (hostIp : String) {host : Host} {vmName target ip : String} (idle : Idle host.actor)
    (resolved : resolve host.actor.metadatas vmName target = some ip) (short : ip.utf8ByteSize ≤ 37) :
    ∃ asked, hostStep hostIp host (.request vmName target) = some asked ∧
      asked.actor.contacts = host.actor.contacts ++ [(ip, vmName)] ∧
      asked.actor.sender = some host.actor.contacts.length ∧ asked.actor.mode = .polling ∧
      asked.actor.answered = host.actor.answered := by
  have fits : ¬ 37 < ip.utf8ByteSize := by omega
  have able : host.actor.mode ≠ .exited := by simp [idle.polls]
  simp only [hostStep,HostEvent.ready,HostEvent.toEvent,step,handleRequest,resolved,if_neg fits,
    if_neg able,if_true,Option.map_some]
  exact ⟨_, rfl, rfl, rfl, rfl, rfl⟩

theorem reply_goes (hostIp : String) {host : Host} {contact : Nat} (polls : host.actor.mode = .polling)
    (current : host.actor.sender = some contact) (inside : contact < host.actor.contacts.length)
    (fresh : contact ∉ host.actor.answered) :
    ∃ left md, hostStep hostIp host (.reply contact "2" true) = some left ∧
      left.actor.sent = host.actor.sent ++ [(contact, md)] ∧ left.actor.mode = .polling ∧
      left.actor.answered = contact :: host.actor.answered ∧
      left.actor.contacts = host.actor.contacts := by
  have waiting : ¬ (host.actor.mode ≠ .polling ∨ host.actor.contacts.length ≤ contact ∨
      contact ∈ host.actor.answered) := by
    simp only [not_or,not_not,polls,fresh]
    exact ⟨trivial, by omega, not_false⟩
  have ready : saysReady "2" = true := by decide
  simp only [hostStep,HostEvent.ready,HostEvent.toEvent,step,if_neg waiting,if_pos current,if_pos ready,
    if_true,Option.map_some,teleport]
  split <;> exact ⟨_, _, rfl, rfl, polls, rfl, rfl⟩

theorem arrive_goes (hostIp : String) {host : Host} (polls : host.actor.mode = .polling) (vmName : String)
    (md : TeleportMetadata) :
    ∃ arrived, hostStep hostIp host (.arrive vmName md) = some arrived ∧ arrived.actor.mode = .polling ∧
      arrived.actor.answered = host.actor.answered ∧ arrived.actor.contacts = host.actor.contacts := by
  have able : host.actor.mode ≠ .exited := by simp [polls]
  simp only [hostStep,HostEvent.ready,HostEvent.toEvent,step,polls,decide_true,if_true,reduceCtorEq,
    if_false,Option.map_some]
  exact ⟨_, rfl, rfl, rfl, rfl⟩

/-- A teleport to another known host with a short address goes through. -/
theorem teleport_goes {hosts : List String} {cluster : String → Host} {hostIp vmName target ip : String}
    (idle : ∀ host, Idle (cluster host).actor)
    (resolved : resolve (records cluster hostIp) vmName target = some ip) (short : ip.utf8ByteSize ≤ 37)
    (inside : hostIp ∈ hosts ∧ ip ∈ hosts ∧ ip ≠ hostIp) :
    ∃ next, clusterStep hosts cluster (.teleport hostIp vmName target false) = some next ∧
      ∀ host, Idle (next host).actor := by
  obtain ⟨asked, requested, contacts, sender, polls, answered⟩ :=
    request_goes hostIp (idle hostIp) resolved short
  have bound (contact : Nat) (member : contact ∈ (cluster hostIp).actor.answered) :
      contact < (cluster hostIp).actor.contacts.length := (idle hostIp).answered contact member
  have longer : asked.actor.contacts.length = (cluster hostIp).actor.contacts.length + 1 := by
    rw [contacts,List.length_append,List.length_singleton]
  obtain ⟨left, md, replied, sent, still, replies, same⟩ := reply_goes hostIp polls sender
    (by omega) (fun member => absurd (bound _ (answered ▸ member)) (by omega))
  obtain ⟨arrived, moved, waits, before, knows⟩ :=
    arrive_goes ip (idle ip).polls vmName md
  refine ⟨Function.update (Function.update cluster hostIp left) ip arrived, ?_, fun host => ?_⟩
  · simp only [clusterStep,requested,Option.bind_some,contacts,List.getElem?_concat_length,if_pos inside,
      replied,sent,moved,Option.map_some]
    rfl
  · by_cases there : host = ip
    · subst there
      rw [Function.update_self]
      exact ⟨waits, by rw [before,knows]; exact (idle host).answered⟩
    · rw [Function.update_of_ne there]
      by_cases here : host = hostIp
      · subst here
        rw [Function.update_self]
        refine ⟨still, ?_⟩
        rw [replies,same,answered]
        intro contact member
        rcases List.mem_cons.mp member with rfl | old
        · omega
        · have := bound contact old
          omega
      · rw [Function.update_of_ne here]
        exact idle host

theorem start_goes {hosts : List String} {cluster : String → Host} {hostIp : String}
    (idle : ∀ host, Idle (cluster host).actor) (inside : hostIp ∈ hosts) (vmName : String) :
    ∃ next, clusterStep hosts cluster (.start hostIp vmName) = some next ∧
      ∀ host, Idle (next host).actor := by
  have able : (cluster hostIp).actor.mode ≠ .exited := by simp [(idle hostIp).polls]
  simp only [clusterStep,if_pos inside,hostStep,HostEvent.ready,HostEvent.toEvent,step,if_neg able,
    if_true,Option.map_some]
  refine ⟨_, rfl, fun host => ?_⟩
  by_cases here : host = hostIp
  · subst here
    rw [Function.update_self]
    exact ⟨(idle host).polls, (idle host).answered⟩
  · rw [Function.update_of_ne here]
    exact idle host

/-- The hosts an event names are among those of the cluster. -/
def ClusterEvent.Within (hosts : List String) : ClusterEvent → Prop
  | .start hostIp _ => hostIp ∈ hosts
  | .teleport hostIp _ target _ => hostIp ∈ hosts ∧ (target ≠ "home" → target ∈ hosts)

/-- The history stays in its place. -/
def ClusterEvent.Unmoved : ClusterEvent → Prop
  | .teleport _ _ _ moved => moved = false
  | _ => True

theorem route_within {hosts : List String} {vmName : String} {route : List String}
    {past : List ClusterEvent} (led : Runs.run (travel vmName) [] past = some route)
    (within : ∀ event ∈ past, event.Within hosts) : ∀ host ∈ route, host ∈ hosts := by
  revert within
  apply Runs.run_history (fun past route => (∀ event ∈ past, event.Within hosts) →
    ∀ host ∈ route, host ∈ hosts) (by simp) _ led
  intro past route event onward _ known moved within host member
  have earlier := known fun old inside => within old (List.mem_append_left _ inside)
  have now := within event (by simp)
  by_cases same : event.vmName = vmName
  · cases event with
    | start hostIp name =>
      obtain rfl : name = vmName := same
      obtain ⟨_, rfl⟩ := travel_start moved
      rwa [List.mem_singleton.mp member]
    | teleport hostIp name target moves =>
      obtain rfl : name = vmName := same
      rcases travel_teleport moved with ⟨_, named, _, rfl⟩ | ⟨home, ip, first, _, is, _, rfl⟩
      · rcases List.mem_cons.mp member with rfl | last
        · exact now.1
        · rw [List.mem_singleton.mp last]
          exact now.2 named
      · rcases List.mem_append.mp member with old | new
        · exact earlier host old
        · rw [List.mem_singleton.mp new,is]
          split
          · exact earlier home (List.mem_of_mem_head? first)
          next named => exact now.2 named
  · rw [travel_other same] at moved
    cases moved
    exact earlier host member

/-- Whatever journeys the VMs make among hosts with addresses of at most 37 bytes, there is
such a run of the hosts in which no history moves. -/
theorem journeys_run {hosts : List String} {events : List ClusterEvent}
    (short : ∀ host ∈ hosts, host.utf8ByteSize ≤ 37) (within : ∀ event ∈ events, event.Within hosts)
    (unmoved : ∀ event ∈ events, event.Unmoved)
    (journeys : ∀ vmName, (Runs.run (travel vmName) [] events).isSome) :
    ∃ final, Runs.run (clusterStep hosts) emptyCluster events = some final ∧
      ∀ host, Idle (final host).actor := by
  induction events using List.reverseRecOn with
  | nil => exact ⟨emptyCluster, rfl, fun _ => ⟨rfl, by simp [emptyCluster,emptyHost,start]⟩⟩
  | append_singleton past event ih =>
    have earlier : ∀ old ∈ past, old.Within hosts :=
      fun old member => within old (List.mem_append_left _ member)
    have now := within event (by simp)
    have staying : ∀ old ∈ past, old.Unmoved :=
      fun old member => unmoved old (List.mem_append_left _ member)
    have stays := unmoved event (by simp)
    obtain ⟨mid, before, idle⟩ := ih earlier staying fun vmName => by
      obtain ⟨onward, gone⟩ := Option.isSome_iff_exists.mp (journeys vmName)
      obtain ⟨route, led, _⟩ := Runs.run_snoc_some gone
      simp [led]
    obtain ⟨onward, gone⟩ := Option.isSome_iff_exists.mp (journeys event.vmName)
    obtain ⟨route, led, moved⟩ := Runs.run_snoc_some gone
    have goes : ∃ next, clusterStep hosts mid event = some next ∧ ∀ host, Idle (next host).actor := by
      cases event with
      | start hostIp vmName => exact start_goes idle now vmName
      | teleport hostIp vmName target moves =>
        obtain rfl : moves = false := stays
        have known := route_within gone within
        obtain ⟨ip, resolved, member, away⟩ : ∃ ip,
            resolve (records mid hostIp) vmName target = some ip ∧ ip ∈ onward ∧ ip ≠ hostIp := by
          rcases travel_teleport moved with ⟨_, named, away, rfl⟩ | ⟨home, ip, first, here, is, away, rfl⟩
          · exact ⟨target, if_neg named, by simp, away⟩
          · refine ⟨ip, ?_, by simp, away⟩
            rcases run_traced before led with ⟨short, nowhere⟩ | ⟨_, _, _, md, begins, ends, latest, from_home, _⟩
            · -- A VM that has not been teleported yet is at home.
              obtain _ | ⟨only, _ | ⟨second, rest⟩⟩ := route
              · contradiction
              · cases first
                cases here
                have named : target ≠ "home" := fun same => away (is.trans (if_pos same))
                exact (if_neg named).trans (congrArg some (is.trans (if_neg named)).symm)
              · exact absurd short (by simp)
            · cases first.symm.trans begins
              cases here.symm.trans ends
              have newest : (vmRecords vmName (records mid hostIp)).getLast? = some md := latest
              rw [resolve_last,newest,is,Option.map_some,from_home,← apply_ite some]
        exact teleport_goes idle resolved (short ip (known ip member)) ⟨now.1, known ip member, away⟩
    obtain ⟨next, taken, still⟩ := goes
    exact ⟨next, by rw [Runs.run_snoc,before,Option.bind_some,taken], still⟩

end Hpvc.Executer
