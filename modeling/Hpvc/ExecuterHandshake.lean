import Hpvc.ExecuterMoves

/-! The handshake of a teleport over the network. A listener never tells its clients apart, but as it
takes one first message only, all of them but one stay at their "1", and the three messages it
reads are those of one contact. -/
namespace Hpvc.Executer

open RequestReply

variable {Bytes : Type}

/-- The listener of a host takes no first message any more: the host is in a handshake, or has been
through one, or does not run. -/
def Closed (site : Site Bytes) (n : Network Bytes) (host : String) : Prop :=
  host ∉ site.hosts ∨ (n.actor host).mode = .exited ∨ n.sockets.owed host ≠ none ∨
    n.phase host = .named ∨ ∃ vmName, n.phase host = .serving vmName

/-- The address and the VM of a contact. -/
def Contacts (n : Network Bytes) (client : Client) (server vmName : String) : Prop :=
  (n.actor client.1).contacts[client.2]? = some (server, vmName)

/-- A contact whose "1" has not been taken. -/
def Knocking (site : Site Bytes) (n : Network Bytes) (client : Client) (server : String) : Prop :=
  n.phase client.1 = .signalling client.2 ∧
    n.sockets.links client = .asked server (site.messages.text "1")

/-- No other contact of the server is past its "1". -/
def Alone (site : Site Bytes) (n : Network Bytes) (client : Client) (server : String) : Prop :=
  ∀ other vmName, other ≠ client → Contacts n other server vmName → Knocking site n other server

/-- The contact whose signal was sent, and which sends, or has sent, the VM's name. -/
def Greeted (site : Site Bytes) (n : Network Bytes) (client : Client) (server vmName : String) : Prop :=
  (n.phase client.1 = .signalling client.2 ∧ ∃ reply, n.sockets.links client = .answered reply) ∨
    (n.phase client.1 ≠ .signalling client.2 ∧
      n.sockets.links client = .asked server (site.messages.text vmName))

/-- The contact whose VM was started: whatever it sends next is what it logs as sent. -/
def Invited (site : Site Bytes) (n : Network Bytes) (client : Client) (server : String) : Prop :=
  n.phase client.1 ≠ .signalling client.2 ∧
    ∀ message, n.sockets.links client = .asked server message →
      ∃ md, message = site.messages.pack md ∧ (client.2, md) ∈ (n.actor client.1).sent

/-- What holds of the handshakes in every state. -/
structure InOrder (site : Site Bytes) (n : Network Bytes) : Prop where
  fresh : ∀ host contact, (n.actor host).contacts.length ≤ contact → n.sockets.links (host, contact) = .idle
  addressed : ∀ client server message, n.sockets.links client = .asked server message →
    ∃ vmName, Contacts n client server vmName
  signalling : ∀ host contact, n.phase host = .signalling contact →
    (n.actor host).mode = .polling ∧ ∃ ip, Contacts n (host, contact) ip (n.actor host).vmName ∧
      (n.sockets.links (host, contact) = .asked ip (site.messages.text "1") ∨
        (∃ reply, n.sockets.links (host, contact) = .answered reply) ∨
        n.sockets.links (host, contact) = .received ∧ Closed site n ip)
  untouched : ∀ server, ¬ Closed site n server → ∀ client vmName, Contacts n client server vmName →
    Knocking site n client server
  named : ∀ server, n.phase server = .named → (n.actor server).mode ≠ .exited →
    ∃ client vmName, Contacts n client server vmName ∧ Alone site n client server ∧
      Greeted site n client server vmName
  serving : ∀ server vmName, n.phase server = .serving vmName → (n.actor server).mode ≠ .exited →
    ∃ client, Contacts n client server vmName ∧ Alone site n client server ∧ Invited site n client server

/-- A step changes the party and the debts of one host only. -/
theorem moves_others {site : Site Bytes} {n next : Network Bytes} {event : NetworkEvent} {host : String}
    (moves : Moves site n event next) (other : host ≠ event.host) :
    next.actor host = n.actor host ∧ next.phase host = n.phase host ∧
      next.sockets.owed host = n.sockets.owed host := by
  cases moves
  all_goals refine ⟨set_actor_of_ne other, set_phase_of_ne other, ?_⟩
  all_goals first | rfl | exact Function.update_of_ne other _ _

/-- The same listeners stay closed. -/
theorem Closed.step {site : Site Bytes} {n next : Network Bytes} {event : NetworkEvent} {host : String}
    (closed : Closed site n host) (taken : networkStep site n event = some next) : Closed site next host := by
  obtain ⟨inside, runs, moves⟩ := networkStep_moves taken
  by_cases here : host = event.host
  · subst here
    have reason : n.sockets.owed event.host ≠ none ∨ n.phase event.host = .named ∨
        ∃ vmName, n.phase event.host = .serving vmName := by
      rcases closed with out | gone | rest
      · exact absurd inside out
      · exact absurd gone runs
      · exact rest
    cases moves with
    | within _ moved quiet kept =>
      refine .inr (.inr ?_)
      rw [set_phase_self,set_sockets]
      exact reason
    | contacted host vmName target ip moved waiting =>
      rcases reason with owed | named | ⟨_, serving⟩
      · exact .inr (.inr (.inl owed))
      · cases waiting.symm.trans named
      · cases waiting.symm.trans serving
    | signalled host contact ip vmName reply blocked =>
      rcases reason with owed | named | ⟨_, serving⟩
      · exact .inr (.inr (.inl owed))
      · cases blocked.symm.trans named
      · cases blocked.symm.trans serving
    | replied host contact completed moved reply waiting =>
      rcases reason with owed | named | ⟨_, serving⟩
      · exact .inr (.inr (.inl owed))
      · cases waiting.symm.trans named
      · cases waiting.symm.trans serving
    | left host contact completed moved reply ip vmName md waiting =>
      rcases reason with owed | named | ⟨_, serving⟩
      · exact .inr (.inr (.inl owed))
      · cases waiting.symm.trans named
      · cases waiting.symm.trans serving
    | knocked => exact .inr (.inr (.inr (.inl (set_phase_self ..))))
    | misread => exact .inr (.inr (.inl (by simp [Network.taken,NetworkEvent.host])))
    | launched => exact .inr (.inr (.inr (.inr ⟨_, set_phase_self ..⟩)))
    | dropped => exact .inr (.inr (.inl (by simp [Network.taken])))
    | arrived => exact .inr (.inr (.inl (by simp [Network.taken,NetworkEvent.host])))
  · obtain ⟨actor, phase, owed⟩ := moves_others moves here
    rw [Closed,actor,phase,owed]
    exact closed

variable {site : Site Bytes} {n next : Network Bytes}

theorem opened_cases {host : String} (open_host : ¬ Closed site n host) :
    host ∈ site.hosts ∧ (n.actor host).mode ≠ .exited ∧ n.sockets.owed host = none ∧
      n.phase host ≠ .named ∧ ∀ vmName, n.phase host ≠ .serving vmName := by
  simpa [Closed] using open_host

/-- A contact at its "1" stays there if its link is not touched and its host is no other step's. -/
theorem Knocking.congr {client : Client} {server : String} (knocking : Knocking site n client server)
    (phase : next.phase client.1 = n.phase client.1)
    (link : next.sockets.links client = n.sockets.links client) : Knocking site next client server := by
  rw [Knocking,phase,link]
  exact knocking

theorem emptyNetwork_inOrder : InOrder site (emptyNetwork Bytes) where
  fresh _ _ _ := rfl
  addressed client server message asked := by cases asked
  signalling host contact blocked := by cases blocked
  untouched server _ client vmName contacts := by cases contacts
  named server named := by cases named
  serving server vmName serving := by cases serving

/-- Two states that differ in nothing the handshakes depend on. -/
structure Alike (site : Site Bytes) (n next : Network Bytes) : Prop where
  sockets : next.sockets = n.sockets
  phase : ∀ host, next.phase host = n.phase host
  contacts : ∀ host, (next.actor host).contacts = (n.actor host).contacts
  sent : ∀ host, (next.actor host).sent = (n.actor host).sent
  runs : ∀ host, (next.actor host).mode ≠ .exited → (n.actor host).mode ≠ .exited
  closed : ∀ host, Closed site n host → Closed site next host
  blocked : ∀ host contact, n.phase host = .signalling contact →
    (next.actor host).vmName = (n.actor host).vmName ∧ (next.actor host).mode = (n.actor host).mode

theorem InOrder.alike (order : InOrder site n) (alike : Alike site n next) : InOrder site next := by
  have contacts (client : Client) (server vmName : String) :
      Contacts next client server vmName ↔ Contacts n client server vmName := by
    rw [Contacts,alike.contacts,Contacts]
  have knocking (client : Client) (server : String) :
      Knocking site next client server ↔ Knocking site n client server := by
    rw [Knocking,alike.phase,alike.sockets,Knocking]
  have alone (client : Client) (server : String) (before : Alone site n client server) :
      Alone site next client server := fun other vmName apart contacted =>
    (knocking other server).mpr (before other vmName apart ((contacts _ _ _).mp contacted))
  constructor
  · intro host contact beyond
    rw [alike.sockets]
    exact order.fresh host contact (alike.contacts host ▸ beyond)
  · intro client server message asked
    rw [alike.sockets] at asked
    obtain ⟨vmName, contacted⟩ := order.addressed client server message asked
    exact ⟨vmName, (contacts ..).mpr contacted⟩
  · intro host contact blocked
    rw [alike.phase] at blocked
    obtain ⟨polls, ip, contacted, link⟩ := order.signalling host contact blocked
    obtain ⟨vm, mode⟩ := alike.blocked host contact blocked
    rw [mode,vm,alike.sockets]
    refine ⟨polls, ip, (contacts ..).mpr contacted, ?_⟩
    rcases link with asked | answered | ⟨received, closed⟩
    · exact .inl asked
    · exact .inr (.inl answered)
    · exact .inr (.inr ⟨received, alike.closed ip closed⟩)
  · intro server opened client vmName contacted
    exact (knocking ..).mpr (order.untouched server (fun closed => opened (alike.closed server closed)) client
      vmName ((contacts ..).mp contacted))
  · intro server named runs
    rw [alike.phase] at named
    obtain ⟨client, vmName, contacted, others, greeted⟩ := order.named server named (alike.runs server runs)
    refine ⟨client, vmName, (contacts ..).mpr contacted, alone client server others, ?_⟩
    rw [Greeted,alike.phase,alike.sockets]
    exact greeted
  · intro server vmName serving runs
    rw [alike.phase] at serving
    obtain ⟨client, contacted, others, invited⟩ := order.serving server vmName serving (alike.runs server runs)
    refine ⟨client, (contacts ..).mpr contacted, alone client server others, ?_⟩
    rw [Invited,alike.phase,alike.sockets,alike.sent]
    exact invited

/-- Whatever a field of a party is, setting another party leaves it. -/
theorem set_alike (n : Network Bytes) (host : String) (party : Party) (field : Party → α)
    (same : field party = field (n.parties host)) (other : String) :
    field ((n.set host party sockets).parties other) = field (n.parties other) := by
  by_cases here : other = host
  · subst here
    simpa [Network.set] using same
  · simp [Network.set,Function.update_of_ne here]

/-- A step of one actor that touches no socket and contacts nobody. -/
theorem InOrder.within (order : InOrder site n) {event : NetworkEvent} {moved : Host}
    (taken : networkStep site n event = some (n.set event.host ⟨moved, n.phase event.host⟩ n.sockets))
    (quiet : Quiet (n.actor event.host) moved.actor)
    (kept : ∀ contact, n.phase event.host = .signalling contact →
      moved.actor.vmName = (n.actor event.host).vmName ∧ moved.actor.mode = (n.actor event.host).mode) :
    InOrder site (n.set event.host ⟨moved, n.phase event.host⟩ n.sockets) := by
  have runs := (networkStep_moves taken).2.1
  refine order.alike ⟨rfl, ?_, ?_, ?_, fun host alive => ?_, fun host closed => closed.step taken,
    fun host contact blocked => ?_⟩
  · exact set_alike n event.host _ Party.phase rfl
  · exact set_alike n event.host _ (fun party => party.host.actor.contacts) quiet.contacts
  · exact set_alike n event.host _ (fun party => party.host.actor.sent) quiet.sent
  · by_cases here : host = event.host
    · subst here
      exact runs
    · rwa [set_actor_of_ne here] at alive
  · by_cases here : host = event.host
    · subst here
      rw [set_actor_self]
      exact kept contact blocked
    · rw [set_actor_of_ne here]
      exact ⟨rfl, rfl⟩

theorem linked_self (n : Network Bytes) (client : Client) (link : Link String Bytes) :
    (n.linked client link).links client = link := Function.update_self ..

theorem linked_of_ne (n : Network Bytes) {client other : Client} (link : Link String Bytes)
    (apart : other ≠ client) : (n.linked client link).links other = n.sockets.links other :=
  Function.update_of_ne apart ..

/-- A contact at its "1" is of another host than one that is at its poller. -/
theorem Knocking.apart {client : Client} {server host : String} (knocking : Knocking site n client server)
    (waiting : n.phase host = .waiting) : client.1 ≠ host := by
  rintro rfl
  cases waiting.symm.trans knocking.1

/-- A step of one actor on the link of one contact. All the rest is as it was, and no contact is forgotten. -/
structure Touches (site : Site Bytes) (n next : Network Bytes) (host : String) (client : Client) : Prop where
  phase : ∀ other, other ≠ host → next.phase other = n.phase other
  actor : ∀ other, other ≠ host → next.actor other = n.actor other
  link : ∀ other, other ≠ client → next.sockets.links other = n.sockets.links other
  contacts : ∃ more, (next.actor host).contacts = (n.actor host).contacts ++ more
  known : ∃ server vmName, Contacts next client server vmName
  closed : ∀ other, Closed site n other → Closed site next other

section Touches
variable {host : String} {client : Client}

theorem Touches.grown (touches : Touches site n next host client) (other : String) :
    ∃ more, (next.actor other).contacts = (n.actor other).contacts ++ more := by
  by_cases here : other = host
  · exact here ▸ touches.contacts
  · exact ⟨[], by rw [touches.actor other here,List.append_nil]⟩

theorem Touches.keeps (touches : Touches site n next host client) {other : Client} {server vmName : String}
    (before : Contacts n other server vmName) : Contacts next other server vmName := by
  obtain ⟨more, grown⟩ := touches.grown other.1
  have bound := (List.getElem?_eq_some_iff.mp before).1
  rw [Contacts,grown,List.getElem?_append_left bound]
  exact before

theorem Touches.opened (touches : Touches site n next host client) {server : String}
    (opened : ¬ Closed site next server) : ¬ Closed site n server :=
  fun closed => opened (touches.closed server closed)

theorem Touches.knocking (touches : Touches site n next host client) {other : Client} {server : String}
    (apart : other ≠ client) (away : other.1 ≠ host) (before : Knocking site n other server) :
    Knocking site next other server :=
  before.congr (touches.phase _ away) (touches.link _ apart)

/-- The link that is touched is that of a contact, so those of no contact stay idle. -/
theorem Touches.fresh (touches : Touches site n next host client) (order : InOrder site n) (other : String)
    (contact : Nat) (beyond : (next.actor other).contacts.length ≤ contact) :
    next.sockets.links (other, contact) = .idle := by
  have apart : (other, contact) ≠ client := by
    rintro rfl
    obtain ⟨_, _, known⟩ := touches.known
    have bound := (List.getElem?_eq_some_iff.mp known).1
    simp only at bound
    omega
  obtain ⟨more, grown⟩ := touches.grown other
  rw [grown,List.length_append] at beyond
  rw [touches.link _ apart]
  exact order.fresh other contact (by omega)

/-- What is asked is asked of the contact's host, if it is so on the link that is touched. -/
theorem Touches.addressed (touches : Touches site n next host client) (order : InOrder site n)
    (ours : ∀ server message, next.sockets.links client = .asked server message →
      ∃ vmName, Contacts next client server vmName)
    (other : Client) (server : String) (message : Bytes) (asked : next.sockets.links other = .asked server message) :
    ∃ vmName, Contacts next other server vmName := by
  by_cases same : other = client
  · subst same
    exact ours server message asked
  · rw [touches.link _ same] at asked
    obtain ⟨vmName, contacted⟩ := order.addressed other server message asked
    exact ⟨vmName, touches.keeps contacted⟩

/-- What a host has that waits for a signal. -/
def Awaits (site : Site Bytes) (n : Network Bytes) (host : String) (contact : Nat) : Prop :=
  (n.actor host).mode = .polling ∧ ∃ ip, Contacts n (host, contact) ip (n.actor host).vmName ∧
    (n.sockets.links (host, contact) = .asked ip (site.messages.text "1") ∨
      (∃ reply, n.sockets.links (host, contact) = .answered reply) ∨
      n.sockets.links (host, contact) = .received ∧ Closed site n ip)

/-- A host that does not step waits as before, if its link is not the one that is touched. -/
theorem Touches.awaits (touches : Touches site n next host client) (order : InOrder site n) {other : String}
    {contact : Nat} (away : other ≠ host) (apart : (other, contact) ≠ client)
    (blocked : next.phase other = .signalling contact) : Awaits site next other contact := by
  rw [touches.phase _ away] at blocked
  obtain ⟨polls, ip, contacted, link⟩ := order.signalling other contact blocked
  rw [Awaits,touches.actor _ away,touches.link _ apart]
  refine ⟨polls, ip, touches.keeps contacted, ?_⟩
  rcases link with asked | answered | ⟨received, closed⟩
  · exact .inl asked
  · exact .inr (.inl answered)
  · exact .inr (.inr ⟨received, touches.closed ip closed⟩)

/-- A listener that does not step is in the handshake it was in, if the step leaves that one alone. -/
theorem Touches.named (touches : Touches site n next host client) (order : InOrder site n) {server : String}
    (alone : ∀ other vmName, Contacts n other server vmName → Alone site n other server →
      Alone site next other server)
    (greeted : ∀ other vmName, Contacts n other server vmName → Greeted site n other server vmName →
      Greeted site next other server vmName)
    (away : server ≠ host) (named : next.phase server = .named) (runs : (next.actor server).mode ≠ .exited) :
    ∃ other vmName, Contacts next other server vmName ∧ Alone site next other server ∧
      Greeted site next other server vmName := by
  rw [touches.phase _ away] at named
  rw [touches.actor _ away] at runs
  obtain ⟨other, vmName, contacted, others, was⟩ := order.named server named runs
  exact ⟨other, vmName, touches.keeps contacted, alone other vmName contacted others,
    greeted other vmName contacted was⟩

theorem Touches.serving (touches : Touches site n next host client) (order : InOrder site n) {server : String}
    (alone : ∀ other vmName, Contacts n other server vmName → Alone site n other server →
      Alone site next other server)
    (invited : ∀ other vmName, Contacts n other server vmName → Invited site n other server →
      Invited site next other server)
    (away : server ≠ host) {vmName : String} (serving : next.phase server = .serving vmName)
    (runs : (next.actor server).mode ≠ .exited) :
    ∃ other, Contacts next other server vmName ∧ Alone site next other server ∧ Invited site next other server := by
  rw [touches.phase _ away] at serving
  rw [touches.actor _ away] at runs
  obtain ⟨other, contacted, others, was⟩ := order.serving server vmName serving runs
  exact ⟨other, touches.keeps contacted, alone other vmName contacted others, invited other vmName contacted was⟩

end Touches

/-- A host with a new contact, which is at its "1". -/
structure NewContact (site : Site Bytes) (n next : Network Bytes) (host ip vmName : String) : Prop extends
    Touches site n next host (host, (n.actor host).contacts.length) where
  waiting : n.phase host = .waiting
  blocked : next.phase host = .signalling (n.actor host).contacts.length
  polls : (next.actor host).mode = .polling
  vm : (next.actor host).vmName = vmName
  added : (next.actor host).contacts = (n.actor host).contacts ++ [(ip, vmName)]
  sent : (next.actor host).sent = (n.actor host).sent
  asked : next.sockets.links (host, (n.actor host).contacts.length) = .asked ip (site.messages.text "1")

section NewContact
variable {host ip vmName : String}

theorem NewContact.here (new : NewContact site n next host ip vmName) :
    Contacts next (host, (n.actor host).contacts.length) ip vmName := by
  simp [Contacts,new.added]

theorem NewContact.knocks (new : NewContact site n next host ip vmName) :
    Knocking site next (host, (n.actor host).contacts.length) ip := ⟨new.blocked, new.asked⟩

/-- The new contact is none of those there were. -/
theorem NewContact.apart {client : Client} {server vm : String} (before : Contacts n client server vm) :
    client ≠ (host, (n.actor host).contacts.length) := by
  rintro rfl
  have bound := (List.getElem?_eq_some_iff.mp before).1
  simp only at bound
  omega

theorem NewContact.contacts_cases (new : NewContact site n next host ip vmName) {client : Client}
    {server vm : String} (after : Contacts next client server vm) :
    Contacts n client server vm ∨ client = (host, (n.actor host).contacts.length) ∧ server = ip := by
  by_cases here : client.1 = host
  · rw [Contacts,here,new.added,List.getElem?_append] at after
    split at after
    · refine .inl ?_
      rw [Contacts,here]
      exact after
    next beyond =>
      rw [List.getElem?_singleton] at after
      split at after
      next zero =>
        cases after
        exact .inr ⟨Prod.ext here (by simp only; omega), rfl⟩
      next => contradiction
  · rw [Contacts,new.actor _ here] at after
    exact .inl after

theorem NewContact.still_knocking (new : NewContact site n next host ip vmName) {client : Client} {server : String}
    (before : Knocking site n client server) : Knocking site next client server := by
  have away := before.apart new.waiting
  exact new.knocking (fun same => away (by rw [same])) away before

theorem NewContact.alone (new : NewContact site n next host ip vmName) {client : Client} {server : String}
    (before : Alone site n client server) : Alone site next client server := by
  intro other vm apart after
  rcases new.contacts_cases after with contacted | ⟨rfl, rfl⟩
  · exact new.still_knocking (before other vm apart contacted)
  · exact new.knocks

/-- Nobody else begins to wait for a signal. -/
theorem NewContact.free (new : NewContact site n next host ip vmName) {client : Client}
    (apart : client ≠ (host, (n.actor host).contacts.length)) (free : n.phase client.1 ≠ .signalling client.2) :
    next.phase client.1 ≠ .signalling client.2 := by
  by_cases here : client.1 = host
  · intro blocked
    rw [here,new.blocked] at blocked
    exact apart (Prod.ext here (Phase.signalling.inj blocked).symm)
  · rwa [new.phase _ here]

theorem NewContact.greeted (new : NewContact site n next host ip vmName) {client : Client} {server vm : String}
    (contacted : Contacts n client server vm) (greeted : Greeted site n client server vm) :
    Greeted site next client server vm := by
  have apart : client ≠ (host, (n.actor host).contacts.length) := NewContact.apart contacted
  rw [Greeted,new.link _ apart]
  rcases greeted with ⟨blocked, answered⟩ | ⟨free, asked⟩
  · have away : client.1 ≠ host := by
      intro here
      rw [here,new.waiting] at blocked
      contradiction
    exact .inl ⟨by rwa [new.phase _ away], answered⟩
  · exact .inr ⟨new.free apart free, asked⟩

theorem NewContact.invited (new : NewContact site n next host ip vmName) {client : Client} {server vm : String}
    (contacted : Contacts n client server vm) (invited : Invited site n client server) :
    Invited site next client server := by
  have apart : client ≠ (host, (n.actor host).contacts.length) := NewContact.apart contacted
  have sent : (next.actor client.1).sent = (n.actor client.1).sent := by
    by_cases here : client.1 = host
    · rw [here,new.sent]
    · rw [new.actor _ here]
  rw [Invited,new.link _ apart,sent]
  exact ⟨new.free apart invited.1, invited.2⟩

theorem NewContact.inOrder (new : NewContact site n next host ip vmName) (order : InOrder site n) :
    InOrder site next where
  fresh := new.fresh order
  addressed := by
    refine new.addressed order fun server message asked => ?_
    cases new.asked.symm.trans asked
    exact ⟨vmName, new.here⟩
  signalling := by
    intro other contact blocked
    by_cases here : other = host
    · subst here
      cases new.blocked.symm.trans blocked
      exact ⟨new.polls, ip, by rw [new.vm]; exact new.here, .inl new.asked⟩
    · exact new.awaits order here (fun same => here (congrArg Prod.fst same)) blocked
  untouched := by
    intro server opened client vm after
    rcases new.contacts_cases after with contacted | ⟨rfl, rfl⟩
    · exact new.still_knocking (order.untouched server (new.opened opened) client vm contacted)
    · exact new.knocks
  named := by
    intro server named
    have away : server ≠ host := by
      rintro rfl
      cases new.blocked.symm.trans named
    exact new.named order (fun _ _ _ => new.alone) (fun _ _ => new.greeted) away named
  serving := by
    intro server vm serving
    have away : server ≠ host := by
      rintro rfl
      cases new.blocked.symm.trans serving
    exact new.serving order (fun _ _ _ => new.alone) (fun _ _ => new.invited) away serving

end NewContact

/-- A new contact, at its "1". -/
theorem InOrder.contacted (order : InOrder site n) {host vmName target ip : String} {moved : Host}
    (taken : networkStep site n (.request host vmName target) =
      some (n.set host ⟨moved, .signalling (n.actor host).contacts.length⟩
        (n.linked (host, (n.actor host).contacts.length) (.asked ip (site.messages.text "1")))))
    (waiting : n.phase host = .waiting) (polls : moved.actor.mode = .polling)
    (vm : moved.actor.vmName = vmName) (contacts : moved.actor.contacts = (n.actor host).contacts ++ [(ip, vmName)])
    (sent : moved.actor.sent = (n.actor host).sent) :
    InOrder site (n.set host ⟨moved, .signalling (n.actor host).contacts.length⟩
      (n.linked (host, (n.actor host).contacts.length) (.asked ip (site.messages.text "1")))) := by
  have new : NewContact site n (n.set host ⟨moved, .signalling (n.actor host).contacts.length⟩
      (n.linked (host, (n.actor host).contacts.length) (.asked ip (site.messages.text "1")))) host ip vmName := by
    refine ⟨⟨fun _ => set_phase_of_ne, fun _ => set_actor_of_ne, fun _ => linked_of_ne n _, ⟨[(ip, vmName)], ?_⟩,
      ⟨ip, vmName, ?_⟩, fun _ closed => closed.step taken⟩, waiting, set_phase_self .., ?_, ?_, ?_, ?_, linked_self ..⟩
    · rw [set_actor_self,contacts]
    · simp [Contacts,contacts]
    · rwa [set_actor_self]
    · rwa [set_actor_self]
    · rwa [set_actor_self]
    · rwa [set_actor_self]
  exact new.inOrder order

/-- A contact that takes its reply and goes on: it sends the VM's name after the signal, and after the "2" the
metadata it logs, or nothing. -/
structure TakesReply (site : Site Bytes) (n next : Network Bytes) (client : Client) : Prop extends
    Touches site n next client.1 client where
  answered : ∃ reply, n.sockets.links client = .answered reply
  before : n.phase client.1 = .signalling client.2 ∨ n.phase client.1 = .waiting
  waits : next.phase client.1 = .waiting
  same : (next.actor client.1).contacts = (n.actor client.1).contacts
  sent : ∀ entry ∈ (n.actor client.1).sent, entry ∈ (next.actor client.1).sent
  asks : ∀ server message, next.sockets.links client = .asked server message →
    ∃ vmName, Contacts n client server vmName
  name : n.phase client.1 = .signalling client.2 → ∀ server vmName, Contacts n client server vmName →
    next.sockets.links client = .asked server (site.messages.text vmName)
  metadata : n.phase client.1 = .waiting → ∀ server message, next.sockets.links client = .asked server message →
    ∃ md, message = site.messages.pack md ∧ (client.2, md) ∈ (next.actor client.1).sent

section TakesReply
variable {client : Client}

theorem TakesReply.contacts_iff (takes : TakesReply site n next client) {other : Client} {server vmName : String} :
    Contacts next other server vmName ↔ Contacts n other server vmName := by
  by_cases here : other.1 = client.1
  · rw [Contacts,Contacts,here,takes.same]
  · rw [Contacts,Contacts,takes.actor _ here]

/-- No other contact of the host waits for a signal. -/
theorem TakesReply.elsewhere (takes : TakesReply site n next client) {other : Client}
    (blocked : n.phase other.1 = .signalling other.2) (apart : other ≠ client) : other.1 ≠ client.1 := by
  intro here
  rw [here] at blocked
  rcases takes.before with this_one | waiting
  · exact apart (Prod.ext here (Phase.signalling.inj (blocked.symm.trans this_one)))
  · cases waiting.symm.trans blocked

/-- The contact itself has no "1" on the way. -/
theorem TakesReply.still_knocking (takes : TakesReply site n next client) {other : Client} {server : String}
    (before : Knocking site n other server) : Knocking site next other server := by
  have apart : other ≠ client := by
    rintro rfl
    obtain ⟨_, answered⟩ := takes.answered
    cases answered.symm.trans before.2
  exact takes.knocking apart (takes.elsewhere before.1 apart) before

theorem TakesReply.alone (takes : TakesReply site n next client) {other : Client} {server : String}
    (before : Alone site n other server) : Alone site next other server :=
  fun another vmName apart after => takes.still_knocking (before another vmName apart (takes.contacts_iff.mp after))

theorem TakesReply.free (takes : TakesReply site n next client) {other : Client}
    (free : n.phase other.1 ≠ .signalling other.2) : next.phase other.1 ≠ .signalling other.2 := by
  by_cases ours : other.1 = client.1
  · rw [ours,takes.waits]
    simp
  · rwa [takes.phase _ ours]

theorem TakesReply.greeted (takes : TakesReply site n next client) {other : Client} {server vmName : String}
    (contacted : Contacts n other server vmName) (greeted : Greeted site n other server vmName) :
    Greeted site next other server vmName := by
  by_cases same : other = client
  · subst same
    rcases greeted with ⟨blocked, _⟩ | ⟨_, asked⟩
    · refine .inr ⟨?_, takes.name blocked server vmName contacted⟩
      rw [takes.waits]
      simp
    · obtain ⟨_, answered⟩ := takes.answered
      cases answered.symm.trans asked
  · rw [Greeted,takes.link _ same]
    rcases greeted with ⟨blocked, answered⟩ | ⟨free, asked⟩
    · exact .inl ⟨by rwa [takes.phase _ (takes.elsewhere blocked same)], answered⟩
    · exact .inr ⟨takes.free free, asked⟩

theorem TakesReply.logged (takes : TakesReply site n next client) {other : Client} {md : TeleportMetadata}
    (logged : (other.2, md) ∈ (n.actor other.1).sent) : (other.2, md) ∈ (next.actor other.1).sent := by
  by_cases ours : other.1 = client.1
  · rw [ours] at logged ⊢
    exact takes.sent _ logged
  · rwa [takes.actor _ ours]

theorem TakesReply.invited (takes : TakesReply site n next client) {other : Client} {server : String}
    (invited : Invited site n other server) : Invited site next other server := by
  refine ⟨takes.free invited.1, fun message asked => ?_⟩
  by_cases same : other = client
  · subst same
    rcases takes.before with blocked | waiting
    · exact absurd blocked invited.1
    · exact takes.metadata waiting server message asked
  · rw [takes.link _ same] at asked
    obtain ⟨md, packed, logged⟩ := invited.2 message asked
    exact ⟨md, packed, takes.logged logged⟩

theorem TakesReply.inOrder (takes : TakesReply site n next client) (order : InOrder site n) :
    InOrder site next where
  fresh := takes.fresh order
  addressed := by
    refine takes.addressed order fun server message asked => ?_
    obtain ⟨vmName, contacted⟩ := takes.asks server message asked
    exact ⟨vmName, takes.keeps contacted⟩
  signalling := by
    intro host contact blocked
    have away : host ≠ client.1 := by
      rintro rfl
      cases takes.waits.symm.trans blocked
    exact takes.awaits order away (fun same => away (congrArg Prod.fst same)) blocked
  untouched := by
    intro server opened other vmName after
    exact takes.still_knocking (order.untouched server (takes.opened opened) other vmName
      (takes.contacts_iff.mp after))
  named := by
    intro server named
    have away : server ≠ client.1 := by
      rintro rfl
      cases takes.waits.symm.trans named
    exact takes.named order (fun _ _ _ => takes.alone) (fun _ _ => takes.greeted) away named
  serving := by
    intro server vmName serving
    have away : server ≠ client.1 := by
      rintro rfl
      cases takes.waits.symm.trans serving
    exact takes.serving order (fun _ _ _ => takes.alone) (fun _ _ _ => takes.invited) away serving

end TakesReply

/-- The listener of a host that takes a message of a contact, and replies or does not. It is in a handshake then, or
through one, and waits for no signal itself. -/
structure TakesMessage (site : Site Bytes) (n next : Network Bytes) (server : String) (client : Client) : Prop extends
    Touches site n next server client where
  asks : ∃ message, n.sockets.links client = .asked server message
  reply : (∃ reply, next.sockets.links client = .answered reply) ∨ next.sockets.links client = .received
  shut : Closed site next server
  before : ∀ contact, n.phase server ≠ .signalling contact
  after : ∀ contact, next.phase server ≠ .signalling contact
  same : (next.actor server).contacts = (n.actor server).contacts
  sent : (next.actor server).sent = (n.actor server).sent

section TakesMessage
variable {server : String} {client : Client}

theorem TakesMessage.contacts_iff (takes : TakesMessage site n next server client) {other : Client}
    {host vmName : String} : Contacts next other host vmName ↔ Contacts n other host vmName := by
  by_cases here : other.1 = server
  · rw [Contacts,Contacts,here,takes.same]
  · rw [Contacts,Contacts,takes.actor _ here]

/-- Nobody waits for a signal at the host itself, before or after. -/
theorem TakesMessage.blocked_iff (takes : TakesMessage site n next server client) (other : Client) :
    next.phase other.1 = .signalling other.2 ↔ n.phase other.1 = .signalling other.2 := by
  by_cases here : other.1 = server
  · rw [here]
    exact iff_of_false (takes.after _) (takes.before _)
  · rw [takes.phase _ here]

/-- The contact whose message is taken is one with this host. -/
theorem TakesMessage.with_server (takes : TakesMessage site n next server client) (order : InOrder site n)
    {host vmName : String} (contacted : Contacts n client host vmName) : host = server := by
  obtain ⟨message, asked⟩ := takes.asks
  obtain ⟨vm, ours⟩ := order.addressed client server message asked
  cases contacted.symm.trans ours
  rfl

theorem TakesMessage.still_knocking (takes : TakesMessage site n next server client) {other : Client} {host : String}
    (apart : other ≠ client) (before : Knocking site n other host) : Knocking site next other host :=
  ⟨(takes.blocked_iff other).mpr before.1, (takes.link _ apart).trans before.2⟩

/-- The contacts with other hosts are not the one whose message is taken. -/
theorem TakesMessage.apart (takes : TakesMessage site n next server client) (order : InOrder site n) {other : Client}
    {host vmName : String} (away : host ≠ server) (contacted : Contacts n other host vmName) : other ≠ client := by
  rintro rfl
  exact away (takes.with_server order contacted)

theorem TakesMessage.alone_away (takes : TakesMessage site n next server client) (order : InOrder site n)
    {other : Client} {host : String} (away : host ≠ server) (before : Alone site n other host) :
    Alone site next other host := by
  intro another vmName apart after
  have contacted := takes.contacts_iff.mp after
  exact takes.still_knocking (takes.apart order away contacted) (before another vmName apart contacted)

theorem TakesMessage.alone_here (takes : TakesMessage site n next server client)
    (before : Alone site n client server) : Alone site next client server :=
  fun other vmName apart after => takes.still_knocking apart (before other vmName apart (takes.contacts_iff.mp after))

theorem TakesMessage.greeted (takes : TakesMessage site n next server client) {other : Client} {host vmName : String}
    (apart : other ≠ client) (greeted : Greeted site n other host vmName) : Greeted site next other host vmName := by
  rw [Greeted,takes.link _ apart,Ne,takes.blocked_iff]
  exact greeted

theorem TakesMessage.invited (takes : TakesMessage site n next server client) {other : Client} {host : String}
    (apart : other ≠ client) (invited : Invited site n other host) : Invited site next other host := by
  have sent : (next.actor other.1).sent = (n.actor other.1).sent := by
    by_cases here : other.1 = server
    · rw [here,takes.sent]
    · rw [takes.actor _ here]
  rw [Invited,takes.link _ apart,sent,Ne,takes.blocked_iff]
  exact invited

/-- The contact itself goes on waiting for its signal, which it has then, or will not get. -/
theorem TakesMessage.waits (takes : TakesMessage site n next server client) (order : InOrder site n)
    (away : client.1 ≠ server) (blocked : next.phase client.1 = .signalling client.2) :
    Awaits site next client.1 client.2 := by
  rw [takes.blocked_iff] at blocked
  obtain ⟨polls, ip, contacted, _⟩ := order.signalling client.1 client.2 blocked
  obtain rfl := takes.with_server order contacted
  rw [Awaits,takes.actor _ away]
  refine ⟨polls, _, takes.keeps contacted, ?_⟩
  rcases takes.reply with answered | received
  · exact .inr (.inl answered)
  · exact .inr (.inr ⟨received, takes.shut⟩)

/-- What is left to show is what holds of the host's own handshake then. -/
theorem TakesMessage.inOrder (takes : TakesMessage site n next server client) (order : InOrder site n)
    (named : next.phase server = .named → (next.actor server).mode ≠ .exited → ∃ vmName,
      Contacts n client server vmName ∧ Alone site n client server ∧ n.phase client.1 = .signalling client.2 ∧
        ∃ reply, next.sockets.links client = .answered reply)
    (serving : ∀ vmName, next.phase server = .serving vmName → (next.actor server).mode ≠ .exited →
      Contacts n client server vmName ∧ Alone site n client server ∧ n.phase client.1 ≠ .signalling client.2 ∧
        ∃ reply, next.sockets.links client = .answered reply) :
    InOrder site next where
  fresh := takes.fresh order
  addressed := by
    refine takes.addressed order fun host message asked => ?_
    rcases takes.reply with ⟨_, answered⟩ | received
    · cases answered.symm.trans asked
    · cases received.symm.trans asked
  signalling := by
    intro host contact blocked
    have away : host ≠ server := by
      rintro rfl
      exact takes.after contact blocked
    by_cases same : (host, contact) = client
    · subst same
      exact takes.waits order away blocked
    · exact takes.awaits order away same blocked
  untouched := by
    intro host opened other vmName after
    have away : host ≠ server := by
      rintro rfl
      exact opened takes.shut
    have contacted := takes.contacts_iff.mp after
    exact takes.still_knocking (takes.apart order away contacted)
      (order.untouched host (takes.opened opened) other vmName contacted)
  named := by
    intro host is_named runs
    by_cases here : host = server
    · subst here
      obtain ⟨vmName, contacted, alone, blocked, answered⟩ := named is_named runs
      exact ⟨client, vmName, takes.keeps contacted, takes.alone_here alone,
        .inl ⟨(takes.blocked_iff client).mpr blocked, answered⟩⟩
    · exact takes.named order (fun _ _ _ => takes.alone_away order here)
        (fun _ _ contacted => takes.greeted (takes.apart order here contacted)) here is_named runs
  serving := by
    intro host vmName is_serving runs
    by_cases here : host = server
    · subst here
      obtain ⟨contacted, alone, free, _, answered⟩ := serving vmName is_serving runs
      refine ⟨client, takes.keeps contacted, takes.alone_here alone, fun blocked => ?_, fun message asked => ?_⟩
      · exact free ((takes.blocked_iff client).mp blocked)
      · cases answered.symm.trans asked
    · exact takes.serving order (fun _ _ _ => takes.alone_away order here)
        (fun _ _ contacted => takes.invited (takes.apart order here contacted)) here is_serving runs

end TakesMessage

/-- A link that is not idle is that of a contact. -/
theorem InOrder.known (order : InOrder site n) {client : Client} (busy : n.sockets.links client ≠ .idle) :
    ∃ server vmName, Contacts n client server vmName := by
  have bound : client.2 < (n.actor client.1).contacts.length := by
    by_contra beyond
    exact busy (order.fresh client.1 client.2 (Nat.le_of_not_lt beyond))
  exact ⟨_, _, List.getElem?_eq_getElem bound⟩

/-- A contact takes its reply and goes on. -/
theorem InOrder.follows (order : InOrder site n) (client : Client) {moved : Host} {reply : Bytes}
    {link : Link String Bytes} (answered : n.sockets.links client = .answered reply)
    (closed : ∀ host, Closed site n host → Closed site (n.set client.1 ⟨moved, .waiting⟩ (n.linked client link)) host)
    (contacts : moved.actor.contacts = (n.actor client.1).contacts)
    (sent : ∀ entry ∈ (n.actor client.1).sent, entry ∈ moved.actor.sent)
    (before : n.phase client.1 = .signalling client.2 ∨ n.phase client.1 = .waiting)
    (asks : ∀ server message, link = .asked server message → ∃ vmName, Contacts n client server vmName)
    (name : n.phase client.1 = .signalling client.2 → ∀ server vmName, Contacts n client server vmName →
      link = .asked server (site.messages.text vmName))
    (metadata : n.phase client.1 = .waiting → ∀ server message, link = .asked server message →
      ∃ md, message = site.messages.pack md ∧ (client.2, md) ∈ moved.actor.sent) :
    InOrder site (n.set client.1 ⟨moved, .waiting⟩ (n.linked client link)) := by
  obtain ⟨server, vmName, known⟩ := @InOrder.known _ site n order client (by rw [answered]; simp)
  have linked : (n.set client.1 ⟨moved, .waiting⟩ (n.linked client link)).sockets.links client = link :=
    linked_self ..
  have takes : TakesReply site n (n.set client.1 ⟨moved, .waiting⟩ (n.linked client link)) client := by
    refine ⟨⟨fun _ => set_phase_of_ne, fun _ => set_actor_of_ne, fun _ => linked_of_ne n _, ⟨[], ?_⟩,
      ⟨server, vmName, ?_⟩, closed⟩, ⟨reply, answered⟩, before, set_phase_self .., ?_, ?_, ?_, ?_, ?_⟩
    · rw [set_actor_self,contacts,List.append_nil]
    · rw [Contacts,set_actor_self,contacts]
      exact known
    · rw [set_actor_self,contacts]
    · rwa [set_actor_self]
    · rwa [linked]
    · rwa [linked]
    · rwa [linked,set_actor_self]
  exact takes.inOrder order

/-- The listener of a host takes a message, and replies or does not. -/
theorem InOrder.listens (order : InOrder site n) {server : String} {client : Client} {message : Bytes}
    {moved : Party} {link : Link String Bytes} {sockets : Sockets String Client Bytes}
    (gets : Gets n server client message) (links : sockets.links = Function.update n.sockets.links client link)
    (reply : (∃ reply, link = .answered reply) ∨ link = .received)
    (closed : ∀ host, Closed site n host → Closed site (n.set server moved sockets) host)
    (now_closed : Closed site (n.set server moved sockets) server)
    (before : ∀ contact, n.phase server ≠ .signalling contact) (after : ∀ contact, moved.phase ≠ .signalling contact)
    (contacts : moved.host.actor.contacts = (n.actor server).contacts)
    (sent : moved.host.actor.sent = (n.actor server).sent)
    (named : moved.phase = .named → moved.host.actor.mode ≠ .exited → ∃ vmName, Contacts n client server vmName ∧
      Alone site n client server ∧ n.phase client.1 = .signalling client.2 ∧ ∃ reply, link = .answered reply)
    (serving : ∀ vmName, moved.phase = .serving vmName → moved.host.actor.mode ≠ .exited →
      Contacts n client server vmName ∧ Alone site n client server ∧ n.phase client.1 ≠ .signalling client.2 ∧
        ∃ reply, link = .answered reply) :
    InOrder site (n.set server moved sockets) := by
  obtain ⟨vmName, known⟩ := order.addressed client server message gets.asks
  have linked : (n.set server moved sockets).sockets.links client = link := by
    rw [set_sockets,links,Function.update_self]
  have contacts_same (host : String) :
      ((n.set server moved sockets).actor host).contacts = (n.actor host).contacts := by
    by_cases here : host = server
    · rw [here,set_actor_self,contacts]
    · rw [set_actor_of_ne here]
  have takes : TakesMessage site n (n.set server moved sockets) server client := by
    refine ⟨⟨fun _ => set_phase_of_ne, fun _ => set_actor_of_ne, fun other apart => ?_, ⟨[], ?_⟩,
      ⟨server, vmName, ?_⟩, closed⟩, ⟨message, gets.asks⟩, ?_, now_closed, before, ?_, contacts_same server, ?_⟩
    · rw [set_sockets,links,Function.update_of_ne apart]
    · rw [contacts_same,List.append_nil]
    · rw [Contacts,contacts_same]
      exact known
    · rwa [linked]
    · rwa [set_phase_self]
    · rwa [set_actor_self]
  refine takes.inOrder order ?_ ?_
  · rwa [set_phase_self,set_actor_self,linked]
  · rwa [set_phase_self,set_actor_self,linked]

/-- A host that gets a message at its poller has not closed its listener. -/
theorem opened_at_poller {server : String} {client : Client} {message : Bytes} (inside : server ∈ site.hosts)
    (runs : (n.actor server).mode ≠ .exited) (gets : Gets n server client message)
    (waiting : n.phase server = .waiting) : ¬ Closed site n server := by
  rintro (out | gone | owed | named | ⟨_, serving⟩)
  · exact out inside
  · exact runs gone
  · exact owed gets.free
  · cases waiting.symm.trans named
  · cases waiting.symm.trans serving

/-- Whose listener is closed takes no first message, now or later. -/
theorem Closed.no_knock {host : String} (closed : Closed site n host) {events : List NetworkEvent}
    (reached : Runs.run (networkStep site) n events = some next) (client : Client) :
    networkStep site next (.knock host client) = none := by
  have still : Closed site next host := Runs.run_invariant (fun state => Closed site state host)
    (fun _ _ _ was taken => was.step taken) closed reached
  rw [← Option.not_isSome_iff_eq_none,Option.isSome_iff_exists]
  rintro ⟨after, taken⟩
  simp only [networkStep] at taken
  split at taken
  next running =>
    simp only [takeKnock] at taken
    split at taken
    next ready =>
      obtain ⟨⟨smsg, sockets⟩, received, _⟩ := Option.bind_eq_some_iff.mp taken
      obtain ⟨free, asks, _⟩ := Sockets.receive_some.mp received
      exact opened_at_poller running.1 running.2 ⟨free, asks⟩ ready.1 still
    next => contradiction
  next => contradiction

/-- At a listener that takes first messages, each message is a "1". -/
theorem InOrder.knocks (order : InOrder site n) {server : String} {client : Client} {message : Bytes}
    (opened : ¬ Closed site n server) (gets : Gets n server client message) :
    n.phase client.1 = .signalling client.2 ∧ message = site.messages.text "1" := by
  obtain ⟨vmName, contacted⟩ := order.addressed client server message gets.asks
  obtain ⟨blocked, asked⟩ := order.untouched server opened client vmName contacted
  cases gets.asks.symm.trans asked
  exact ⟨blocked, rfl⟩

/-- What a listener in a handshake gets is a "1" of some contact, or comes from the contact it has
the handshake with. -/
theorem Alone.gets {server : String} {client other : Client} {message : Bytes} (order : InOrder site n)
    (alone : Alone site n client server) (gets : Gets n server other message) :
    other = client ∨ message = site.messages.text "1" := by
  by_cases same : other = client
  · exact .inl same
  · obtain ⟨vmName, contacted⟩ := order.addressed other server message gets.asks
    cases gets.asks.symm.trans (alone other vmName same contacted).2
    exact .inr rfl

/-- The order is kept by every step, where no VM is called "1". -/
theorem InOrder.step (order : InOrder site n) (unnamed : ∀ host, site.registered host "1" = false)
    {event : NetworkEvent} (taken : networkStep site n event = some next) : InOrder site next := by
  obtain ⟨inside, runs, moves⟩ := networkStep_moves taken
  have closed (host : String) (was : Closed site n host) : Closed site next host := was.step taken
  cases moves with
  | within _ moved quiet kept => exact order.within taken quiet kept
  | contacted host vmName target ip moved waiting polls vm contacts sent =>
    exact order.contacted taken waiting polls vm contacts sent
  | signalled host contact ip vmName reply blocked contacted answered =>
    refine order.follows (host, contact) answered closed rfl (fun _ logged => logged) (.inl blocked)
      (fun server message asked => ?_) (fun _ server vm is => ?_) (fun waiting => ?_)
    · cases asked
      exact ⟨vmName, contacted⟩
    · obtain ⟨_, target, is_ours, _⟩ := order.signalling host contact blocked
      cases is.symm.trans contacted
      cases is.symm.trans is_ours
      rfl
    · cases waiting.symm.trans blocked
  | replied host contact completed moved reply waiting answered quiet =>
    refine order.follows (host, contact) answered closed quiet.contacts (fun entry logged => ?_) (.inr waiting)
      (fun server message asked => ?_) (fun blocked => ?_) (fun _ server message asked => ?_)
    · rw [quiet.sent]
      exact logged
    · contradiction
    · cases waiting.symm.trans blocked
    · contradiction
  | left host contact completed moved reply ip vmName md waiting answered contacted contacts sent =>
    refine order.follows (host, contact) answered closed contacts (fun entry logged => ?_) (.inr waiting)
      (fun server message asked => ?_) (fun blocked => ?_) (fun _ server message asked => ?_)
    · rw [sent]
      exact List.mem_append_left _ logged
    · cases asked
      exact ⟨vmName, contacted⟩
    · cases waiting.symm.trans blocked
    · cases asked
      refine ⟨md, rfl, ?_⟩
      rw [sent]
      simp
  | knocked host client smsg waiting gets =>
    have opened := opened_at_poller inside runs gets waiting
    obtain ⟨blocked, _⟩ := order.knocks opened gets
    obtain ⟨vmName, contacted⟩ := order.addressed client host smsg gets.asks
    refine order.listens gets rfl (.inl ⟨_, rfl⟩) closed (.inr (.inr (.inr (.inl (set_phase_self ..)))))
      (fun contact is => ?_) (fun contact is => ?_) rfl rfl (fun _ _ => ?_) (fun _ is => ?_)
    · cases waiting.symm.trans is
    · contradiction
    · exact ⟨vmName, contacted, fun other vm _ is => order.untouched host opened other vm is, blocked, _, rfl⟩
    · contradiction
  | misread host client smsg waiting gets other =>
    have opened := opened_at_poller inside runs gets waiting
    obtain ⟨_, rfl⟩ := order.knocks opened gets
    rw [site.messages.readText_text] at other
    exact absurd rfl other
  | launched host client smsg named gets known =>
    obtain ⟨greeted, vmName, contacted, alone, first | ⟨free, asked⟩⟩ := order.named host named runs
    · rcases alone.gets order gets with rfl | rfl
      · obtain ⟨_, reply, answered⟩ := first
        cases answered.symm.trans gets.asks
      · rw [site.messages.readText_text,unnamed] at known
        contradiction
    · rcases alone.gets order gets with rfl | rfl
      · cases gets.asks.symm.trans asked
        rw [site.messages.readText_text]
        refine order.listens gets rfl (.inl ⟨_, rfl⟩) ?_ (.inr (.inr (.inr (.inr ⟨_, set_phase_self ..⟩))))
          (fun contact is => ?_) (fun contact is => ?_) rfl rfl (fun is => ?_) (fun vm is _ => ?_)
        · rw [site.messages.readText_text] at closed
          exact closed
        · cases named.symm.trans is
        · contradiction
        · contradiction
        · cases is
          exact ⟨contacted, alone, free, _, rfl⟩
      · rw [site.messages.readText_text,unnamed] at known
        contradiction
  | dropped _ client message gets in_handshake =>
    refine order.listens gets rfl (.inr rfl) closed (.inr (.inl ?_)) in_handshake in_handshake rfl rfl
      (fun _ alive => absurd rfl alive) (fun _ _ alive => absurd rfl alive)
    rw [set_actor_self]
    rfl
  | arrived host client frame vmName md moved moves serving gets unpacked moved_is =>
    have recorded := recorded_cases (hostStep_some.mp moved_is).2.2
    refine order.listens gets rfl (.inr rfl) closed (.inr (.inr (.inl ?_))) (fun contact is => ?_)
      (fun contact is => ?_) ?_ ?_ (fun is => ?_) (fun _ is => ?_)
    · simp [Network.taken]
    · cases serving.symm.trans is
    · contradiction
    · rw [printHistory_contacts,recorded]
      rfl
    · rw [printHistory_sent,recorded]
      rfl
    · contradiction
    · contradiction

/-- In every run from hosts without VMs, the handshakes are in order. -/
theorem run_inOrder {events : List NetworkEvent} (unnamed : ∀ host, site.registered host "1" = false)
    (reached : Runs.run (networkStep site) (emptyNetwork Bytes) events = some n) : InOrder site n :=
  Runs.run_invariant (InOrder site) (fun _ _ _ order taken => order.step unnamed taken) emptyNetwork_inOrder
    reached

end Hpvc.Executer
