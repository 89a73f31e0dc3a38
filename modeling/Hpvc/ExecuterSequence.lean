import Hpvc.ExecuterArrivals
import Hpvc.ExecuterCluster

/-! Teleports one at a time, over the network: the run of the cluster in which each is a single step is
one of the network, as long as no listener is needed twice. -/
namespace Hpvc.Executer

open RequestReply

variable {Bytes : Type} {site : Site Bytes} {n : Network Bytes}

/-- Between teleports: every actor is at its poller, and who has taken nobody in owes nothing. -/
structure Carries (cluster : String → Host) (n : Network Bytes) : Prop where
  parties : ∀ host, n.parties host = ⟨cluster host, .waiting⟩
  free : ∀ host, guests (cluster host).actor = 0 → n.sockets.owed host = none

theorem set_parties_self (n : Network Bytes) (host : String) (party : Party)
    (sockets : Sockets String Client Bytes) : (n.set host party sockets).parties host = party :=
  Function.update_self ..

theorem set_parties_of_ne {host other : String} {party : Party} {sockets : Sockets String Client Bytes}
    (apart : other ≠ host) : (n.set host party sockets).parties other = n.parties other :=
  Function.update_of_ne apart ..

/-- A host that takes part in a step runs. -/
theorem hostStep_runs {hostIp : String} {host next : Host} {event : HostEvent}
    (taken : hostStep hostIp host event = some next) : host.actor.mode ≠ .exited := by
  have moved := (hostStep_some.mp taken).2.2
  intro gone
  cases event <;> simp [HostEvent.toEvent,step,gone] at moved

/-- A teleport in between: its source and its target have come so far, its link carries what is given,
and all else is as it was before. -/
structure Stage (before n : Network Bytes) (client : Client) (server : String) (source target : Party)
    (link : Link String Bytes) : Prop where
  source : n.parties client.1 = source
  target : n.parties server = target
  others : ∀ host, host ≠ client.1 → host ≠ server → n.parties host = before.parties host
  link : n.sockets.links client = link
  owed : n.sockets.owed = before.sockets.owed

variable {before : Network Bytes} {client : Client} {server : String} {source target : Party}
  {link : Link String Bytes}

theorem Stage.source_steps (stage : Stage before n client server source target link)
    (apart : server ≠ client.1) (party : Party) (carried : Link String Bytes) :
    Stage before (n.set client.1 party (n.linked client carried)) client server party target carried where
  source := set_parties_self ..
  target := (set_parties_of_ne apart).trans stage.target
  others host away elsewhere := (set_parties_of_ne away).trans (stage.others host away elsewhere)
  link := linked_self ..
  owed := stage.owed

theorem Stage.target_steps (stage : Stage before n client server source target link)
    (apart : server ≠ client.1) (party : Party) (carried : Link String Bytes) :
    Stage before (n.set server party (n.linked client carried)) client server source party carried where
  source := (set_parties_of_ne apart.symm).trans stage.source
  target := set_parties_self ..
  others host away elsewhere := (set_parties_of_ne elsewhere).trans (stage.others host away elsewhere)
  link := linked_self ..
  owed := stage.owed

/-- The six messages of a teleport. -/
theorem teleport_carried {hostIp vmName teleported ip name : String} {home guest asked left arrived : Host}
    {k : Nat} {md : TeleportMetadata} (order : InOrder site n)
    (at_home : n.parties hostIp = ⟨home, .waiting⟩) (at_target : n.parties ip = ⟨guest, .waiting⟩)
    (requested : hostStep hostIp home (.request vmName teleported) = some asked)
    (contacted : asked.actor.contacts[home.actor.contacts.length]? = some (ip, name))
    (inside : hostIp ∈ site.hosts ∧ ip ∈ site.hosts ∧ ip ≠ hostIp)
    (replied : hostStep hostIp asked (.reply home.actor.contacts.length "2" true) = some left)
    (frame : left.actor.sent[asked.actor.sent.length]? = some (k, md))
    (moved : hostStep ip guest (.arrive name md) = some arrived) (moves : Bool)
    (known : site.registered ip name = true) (opened : n.sockets.owed ip = none) :
    ∃ events final, Runs.run (networkStep site) n events = some final ∧
      final.parties = Function.update (Function.update n.parties hostIp ⟨left, .waiting⟩) ip
        ⟨arrived.printHistory moves, .waiting⟩ ∧
      ∀ host, host ≠ ip → final.sockets.owed host = n.sockets.owed host := by
  obtain ⟨source_in, target_in, apart⟩ := inside
  have contact_of : asked.actor.vmName = name ∧ asked.actor.sender = some home.actor.contacts.length := by
    obtain ⟨_, _, vm, ⟨_, _, _, contacts⟩ | ⟨found, _, _, sender, contacts⟩⟩ :=
      request_cases (hostStep_some.mp requested).2.2
    · rw [contacts,List.getElem?_eq_none (Nat.le_refl _)] at contacted
      contradiction
    · rw [contacts,List.getElem?_concat_length] at contacted
      cases contacted
      exact ⟨vm, sender⟩
  obtain ⟨rfl, current⟩ := contact_of
  have apart' : ip ≠ (hostIp, home.actor.contacts.length).1 := apart
  have polls : guest.actor.mode = .polling := of_decide_eq_true (hostStep_some.mp moved).1
  have guest_runs : guest.actor.mode ≠ .exited := hostStep_runs moved
  have idle : n.sockets.links (hostIp, home.actor.contacts.length) = .idle :=
    order.fresh hostIp _ (Nat.le_of_eq (congrArg (fun party => party.host.actor.contacts.length) at_home))
  have stage0 : Stage n n (hostIp, home.actor.contacts.length) ip ⟨home, .waiting⟩ ⟨guest, .waiting⟩ .idle :=
    ⟨at_home, at_target, fun _ _ _ => rfl, idle, rfl⟩
  have request := request_sends source_in (hostStep_runs requested) at_home requested contacted idle
  have stage1 := stage0.source_steps apart' ⟨asked, .signalling home.actor.contacts.length⟩
    (.asked ip (site.messages.text "1"))
  have knock := knock_signals target_in polls stage1.target ⟨(congrFun stage1.owed ip).trans opened, stage1.link⟩
  have stage2 := stage1.target_steps apart' ⟨guest, .named⟩ (.answered site.messages.signal)
  have signal := signal_sends source_in (hostStep_runs replied) stage2.source stage2.link contacted
  have stage3 := stage2.source_steps apart' ⟨asked, .waiting⟩ (.asked ip (site.messages.text asked.actor.vmName))
  have naming := name_replies target_in guest_runs stage3.target ⟨(congrFun stage3.owed ip).trans opened, stage3.link⟩
    known
  have stage4 := stage3.target_steps apart' ⟨guest, .serving asked.actor.vmName⟩ (.answered (site.messages.text "2"))
  have reply := reply_sends source_in (hostStep_runs replied) stage4.source stage4.link replied current frame
    contacted
  have stage5 := stage4.source_steps apart' ⟨left, .waiting⟩ (.asked ip (site.messages.pack md))
  have arrival := frame_arrives target_in guest_runs stage5.target
    ⟨(congrFun stage5.owed ip).trans opened, stage5.link⟩ moved moves
  have whole := Runs.run_step request <| Runs.run_step knock <| Runs.run_step signal <| Runs.run_step naming <|
    Runs.run_step reply <| Runs.run_step arrival <| Runs.run_nil (networkStep site) _
  refine ⟨_, _, whole, ?_, ?_⟩
  · funext host
    by_cases at_ip : host = ip
    · subst at_ip
      rw [set_parties_self,Function.update_self]
    · rw [set_parties_of_ne at_ip,Function.update_of_ne at_ip]
      by_cases at_source : host = hostIp
      · subst at_source
        rw [stage5.source,Function.update_self]
      · rw [stage5.others host at_source at_ip,Function.update_of_ne at_source]
  · intro host elsewhere
    exact (Function.update_of_ne elsewhere ..).trans (congrFun stage5.owed host)

/-- What a start does, and that it takes nobody in. -/
theorem start_cases {hosts : List String} {cluster next : String → Host} {hostIp vmName : String}
    (taken : clusterStep hosts cluster (.start hostIp vmName) = some next) :
    ∃ started, hostIp ∈ hosts ∧ hostStep hostIp (cluster hostIp) (.start vmName) = some started ∧
      next = Function.update cluster hostIp started ∧
      guests started.actor = guests (cluster hostIp).actor := by
  simp only [clusterStep] at taken
  split at taken
  next inside =>
    obtain ⟨started, moved, rfl⟩ := Option.map_eq_some_iff.mp taken
    exact ⟨started, inside, moved, rfl, hostStep_guests (fun _ _ => HostEvent.noConfusion) moved⟩
  next => contradiction

/-- The steps of a teleport. -/
structure Passage (hosts : List String) (cluster : String → Host) (hostIp vmName teleported ip : String)
    (asked left arrived : Host) : Prop where
  requested : hostStep hostIp (cluster hostIp) (.request vmName teleported) = some asked
  contacted : asked.actor.contacts[(cluster hostIp).actor.contacts.length]? = some (ip, vmName)
  inside : hostIp ∈ hosts ∧ ip ∈ hosts ∧ ip ≠ hostIp
  replied : hostStep hostIp asked (.reply (cluster hostIp).actor.contacts.length "2" true) = some left
  moved : ∃ k md, left.actor.sent[asked.actor.sent.length]? = some (k, md) ∧
    hostStep ip (cluster ip) (.arrive vmName md) = some arrived
  at_home : guests left.actor = guests (cluster hostIp).actor
  at_target : guests arrived.actor = guests (cluster ip).actor + 1

theorem teleport_passage {hosts : List String} {cluster next : String → Host} {hostIp vmName target : String}
    {moves : Bool} (taken : clusterStep hosts cluster (.teleport hostIp vmName target moves) = some next) :
    ∃ ip asked left arrived, Passage hosts cluster hostIp vmName target ip asked left arrived ∧
      next = Function.update (Function.update cluster hostIp left) ip (arrived.printHistory moves) := by
  simp only [clusterStep] at taken
  obtain ⟨asked, requested, taken⟩ := Option.bind_eq_some_iff.mp taken
  obtain ⟨⟨ip, name⟩, contacted, taken⟩ := Option.bind_eq_some_iff.mp taken
  split at taken
  next inside =>
    obtain ⟨left, replied, taken⟩ := Option.bind_eq_some_iff.mp taken
    obtain ⟨⟨k, md⟩, frame, taken⟩ := Option.bind_eq_some_iff.mp taken
    obtain ⟨arrived, moved, rfl⟩ := Option.map_eq_some_iff.mp taken
    have named : name = vmName := by
      obtain ⟨_, _, _, ⟨_, _, _, contacts⟩ | ⟨_, _, _, _, contacts⟩⟩ :=
        request_cases (hostStep_some.mp requested).2.2
      · rw [contacts,List.getElem?_eq_none (Nat.le_refl _)] at contacted
        contradiction
      · rw [contacts,List.getElem?_concat_length] at contacted
        cases contacted
        rfl
    subst named
    refine ⟨ip, asked, left, arrived, ⟨requested, contacted, inside, replied, ⟨k, md, frame, moved⟩, ?_, ?_⟩, rfl⟩
    · rw [hostStep_guests (fun _ _ => HostEvent.noConfusion) replied,
        hostStep_guests (fun _ _ => HostEvent.noConfusion) requested]
    · rw [guests,recorded_cases (hostStep_some.mp moved).2.2]
      exact guests_arrive ..
  next => contradiction

/-- One step of the cluster over the network. -/
theorem Carries.step {cluster next : String → Host} (carries : Carries cluster n) (order : InOrder site n)
    {event : ClusterEvent} (taken : clusterStep site.hosts cluster event = some next)
    (known : ∀ host, host ∈ site.hosts → site.registered host event.vmName = true)
    (few : ∀ host, guests (next host).actor ≤ 1) :
    ∃ events final, Runs.run (networkStep site) n events = some final ∧ Carries next final := by
  cases event with
  | start hostIp vmName =>
    obtain ⟨started, inside, moved, rfl, same⟩ := start_cases taken
    refine ⟨[.start hostIp vmName], n.set hostIp ⟨started, .waiting⟩ n.sockets, ?_, ?_, ?_⟩
    · rw [Runs.run_cons,start_steps inside (hostStep_runs moved) (carries.parties hostIp) moved]
      rfl
    · intro host
      by_cases here : host = hostIp
      · subst here
        rw [set_parties_self,Function.update_self]
      · rw [set_parties_of_ne here,carries.parties,Function.update_of_ne here]
    · intro host nobody
      refine carries.free host ?_
      by_cases here : host = hostIp
      · subst here
        rwa [Function.update_self,same] at nobody
      · rwa [Function.update_of_ne here] at nobody
  | teleport hostIp vmName target moves =>
    obtain ⟨ip, asked, left, arrived, passage, rfl⟩ := teleport_passage taken
    obtain ⟨k, md, frame, moved⟩ := passage.moved
    have alone : guests (cluster ip).actor = 0 := by
      have one := few ip
      rw [Function.update_self,printHistory_guests,passage.at_target] at one
      omega
    obtain ⟨events, final, reached, parties, owed⟩ := teleport_carried order (carries.parties hostIp)
      (carries.parties ip) passage.requested passage.contacted passage.inside passage.replied frame moved moves
      (known ip passage.inside.2.1) (carries.free ip alone)
    refine ⟨events, final, reached, fun host => ?_, fun host nobody => ?_⟩
    · rw [parties]
      by_cases at_ip : host = ip
      · subst at_ip
        rw [Function.update_self,Function.update_self]
      · rw [Function.update_of_ne at_ip,Function.update_of_ne at_ip]
        by_cases at_home : host = hostIp
        · subst at_home
          rw [Function.update_self,Function.update_self]
        · rw [Function.update_of_ne at_home,Function.update_of_ne at_home,carries.parties]
    · by_cases at_ip : host = ip
      · subst at_ip
        rw [Function.update_self,printHistory_guests,passage.at_target] at nobody
        contradiction
      · rw [owed host at_ip]
        refine carries.free host ?_
        rw [Function.update_of_ne at_ip] at nobody
        by_cases at_home : host = hostIp
        · subst at_home
          rwa [Function.update_self,passage.at_home] at nobody
        · rwa [Function.update_of_ne at_home] at nobody

end Hpvc.Executer
