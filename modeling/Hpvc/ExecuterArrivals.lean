import Hpvc.ExecuterHandshake

/-! The VMs that an executer takes in. There is one at most, since the listener owes a reply after the
first, and it is the VM of the contact that sent the metadata, whatever else was going on. -/
namespace Hpvc.Executer

open RequestReply

variable {Bytes : Type} {site : Site Bytes} {n next : Network Bytes}

/-- Who took a VM in owes a reply. -/
structure OwesForGuest (n : Network Bytes) : Prop where
  few : ∀ host, guests (n.actor host) ≤ 1
  owes : ∀ host, 0 < guests (n.actor host) → n.sockets.owed host ≠ none

/-- The only step that takes a VM in, and what it adds. -/
theorem moves_guests {event : NetworkEvent} (moves : Moves site n event next) (host : String) :
    (guests (next.actor host) = guests (n.actor host) ∧
        (n.sockets.owed host ≠ none → next.sockets.owed host ≠ none)) ∨
      ∃ client moves frame vmName md session, event = .frame host client moves ∧ n.phase host = .serving vmName ∧
        Gets n host client frame ∧ site.messages.unpack frame = some md ∧
        next.sockets.owed host = some client ∧
        (next.actor host).metadatas = (n.actor host).metadatas ++ [guestMetadata host vmName session md] := by
  by_cases here : host = event.host
  · subst here
    cases moves with
    | within _ moved quiet => exact .inl ⟨by rw [set_actor_self,quiet.guests], fun owed => owed⟩
    | contacted _ _ _ _ moved _ _ _ _ _ same =>
      exact .inl ⟨by rw [NetworkEvent.host,set_actor_self,same], fun owed => owed⟩
    | signalled => exact .inl ⟨by rw [NetworkEvent.host,set_actor_self]; rfl, fun owed => owed⟩
    | replied _ _ _ moved _ _ _ quiet =>
      exact .inl ⟨by rw [NetworkEvent.host,set_actor_self,quiet.guests], fun owed => owed⟩
    | left _ _ _ moved _ _ _ _ _ _ _ _ _ same =>
      exact .inl ⟨by rw [NetworkEvent.host,set_actor_self,same], fun owed => owed⟩
    | knocked => exact .inl ⟨by rw [NetworkEvent.host,set_actor_self]; rfl, fun owed => owed⟩
    | misread =>
      refine .inl ⟨by rw [NetworkEvent.host,set_actor_self]; rfl, fun _ => ?_⟩
      simp [Network.taken,NetworkEvent.host]
    | launched => exact .inl ⟨by rw [NetworkEvent.host,set_actor_self]; rfl, fun owed => owed⟩
    | dropped =>
      refine .inl ⟨by rw [set_actor_self]; rfl, fun _ => ?_⟩
      simp [Network.taken]
    | arrived host client frame vmName md moved moves serving gets unpacked moved_is =>
      refine .inr ⟨client, moves, frame, vmName, md, (n.parties host).host.opened, rfl, serving, gets, unpacked, ?_, ?_⟩
      · simp [Network.taken,NetworkEvent.host]
      · rw [NetworkEvent.host,set_actor_self,printHistory_metadatas,recorded_cases (hostStep_some.mp moved_is).2.2]
        rfl
  · obtain ⟨actor, _, owed⟩ := moves_others moves here
    rw [actor,owed]
    exact .inl ⟨rfl, id⟩

theorem OwesForGuest.step (before : OwesForGuest n) {event : NetworkEvent}
    (taken : networkStep site n event = some next) : OwesForGuest next := by
  obtain ⟨_, _, moves⟩ := networkStep_moves taken
  have each (host : String) : guests (next.actor host) ≤ 1 ∧
      (0 < guests (next.actor host) → next.sockets.owed host ≠ none) := by
    rcases moves_guests moves host with ⟨same, owed⟩ |
      ⟨client, moves, frame, vmName, md, session, _, _, gets, _, owes, records⟩
    · rw [same]
      exact ⟨before.few host, fun some_guest => owed (before.owes host some_guest)⟩
    · have none : guests (n.actor host) = 0 := by
        by_contra some_guest
        exact before.owes host (Nat.pos_of_ne_zero some_guest) gets.free
      have one : guests (next.actor host) = 1 := by
        rw [guests,records,guests_arrive]
        exact congrArg (· + 1) none
      exact ⟨Nat.le_of_eq one, fun _ => by simp [owes]⟩
  exact ⟨fun host => (each host).1, fun host => (each host).2⟩

theorem emptyNetwork_owes : OwesForGuest (emptyNetwork Bytes) where
  few _ := Nat.zero_le 1
  owes _ some_guest := absurd some_guest (Nat.lt_irrefl 0)

/-- In every run of the network, whatever the VMs are called, no executer takes in more than one VM, and
one that has taken a VM in never takes a first message again. -/
theorem one_guest_each {events : List NetworkEvent}
    (reached : Runs.run (networkStep site) (emptyNetwork Bytes) events = some n) (host : String) :
    guests (n.actor host) ≤ 1 ∧ (guests (n.actor host) = 1 → ∀ more final client,
      Runs.run (networkStep site) n more = some final → networkStep site final (.knock host client) = none) := by
  have owing : OwesForGuest n := Runs.run_invariant OwesForGuest (fun _ _ _ before taken => before.step taken)
    emptyNetwork_owes reached
  refine ⟨owing.few host, fun one more final client later => ?_⟩
  have closed : Closed site n host := .inr (.inr (.inl (owing.owes host (by omega))))
  exact closed.no_knock later client

/-- A VM is started and teleported, up to its metadata. -/
def oneTeleport : List NetworkEvent :=
  [.start "10.0.0.1" "vm1", .request "10.0.0.1" "vm1" "10.0.0.2", .knock "10.0.0.2" ("10.0.0.1", 0),
    .signalled "10.0.0.1", .name "10.0.0.2" ("10.0.0.1", 0) true, .reply "10.0.0.1" 0 true]

/-- The target has taken the VM in, and takes no more "1". -/
theorem one_guest_arrived : ∃ n, Runs.run (networkStep twoHosts) (emptyNetwork Plain)
      (oneTeleport ++ [.frame "10.0.0.2" ("10.0.0.1", 0) false]) = some n ∧
    guests (n.actor "10.0.0.2") = 1 ∧ ∀ client, networkStep twoHosts n (.knock "10.0.0.2" client) = none := by
  obtain ⟨n, reached, one⟩ : ∃ n, Runs.run (networkStep twoHosts) (emptyNetwork Plain)
      (oneTeleport ++ [.frame "10.0.0.2" ("10.0.0.1", 0) false]) = some n ∧ guests (n.actor "10.0.0.2") = 1 :=
    ⟨_, rfl, rfl⟩
  exact ⟨n, reached, one, fun client => (one_guest_each reached "10.0.0.2").2 one [] n client rfl⟩

/-- In every run of the network where no VM is called "1": an executer that takes a VM in records it
under the name of the contact whose frame it read, which is a contact with this executer, and with
the metadata that the contact's host logged as sent on it. -/
theorem arrival_agrees {events : List NetworkEvent} {event : NetworkEvent} {host : String}
    (unnamed : ∀ host, site.registered host "1" = false)
    (reached : Runs.run (networkStep site) (emptyNetwork Bytes) events = some n)
    (taken : networkStep site n event = some next) (came : guests (n.actor host) ≠ guests (next.actor host)) :
    ∃ client moves vmName md session, event = .frame host client moves ∧ Contacts n client host vmName ∧
      (client.2, md) ∈ (n.actor client.1).sent ∧
      (next.actor host).metadatas = (n.actor host).metadatas ++ [guestMetadata host vmName session md] := by
  have order := run_inOrder unnamed reached
  obtain ⟨_, runs, moves⟩ := networkStep_moves taken
  rcases moves_guests moves host with ⟨same, _⟩ |
    ⟨client, moved, frame, vmName, md, session, rfl, serving, gets, unpacked, _, records⟩
  · exact absurd same.symm came
  · obtain ⟨greeted, contacted, alone, _, sends⟩ := order.serving host vmName serving runs
    rcases alone.gets order gets with rfl | rfl
    · obtain ⟨sent, rfl, logged⟩ := sends frame gets.asks
      cases unpacked.symm.trans (site.messages.unpack_pack sent)
      exact ⟨client, moved, vmName, md, session, rfl, contacted, logged, records⟩
    · rw [site.messages.unpack_one] at unpacked
      contradiction

/-- The VM of the one contact, with the home and the history its host sent. -/
theorem arrival_agrees_once : ∃ n next, Runs.run (networkStep twoHosts) (emptyNetwork Plain) oneTeleport = some n ∧
    networkStep twoHosts n (.frame "10.0.0.2" ("10.0.0.1", 0) false) = some next ∧
    ∃ client moves vmName md session,
      NetworkEvent.frame "10.0.0.2" ("10.0.0.1", 0) false = .frame "10.0.0.2" client moves ∧
      Contacts n client "10.0.0.2" vmName ∧ (client.2, md) ∈ (n.actor client.1).sent ∧
      (next.actor "10.0.0.2").metadatas =
        (n.actor "10.0.0.2").metadatas ++ [guestMetadata "10.0.0.2" vmName session md] := by
  obtain ⟨n, next, reached, taken, came⟩ : ∃ n next,
      Runs.run (networkStep twoHosts) (emptyNetwork Plain) oneTeleport = some n ∧
      networkStep twoHosts n (.frame "10.0.0.2" ("10.0.0.1", 0) false) = some next ∧
      guests (n.actor "10.0.0.2") ≠ guests (next.actor "10.0.0.2") := ⟨_, _, rfl, rfl, by decide⟩
  have unnamed : ∀ host, twoHosts.registered host "1" = false := fun _ => rfl
  exact ⟨n, next, reached, taken, arrival_agrees unnamed reached taken came⟩

end Hpvc.Executer
