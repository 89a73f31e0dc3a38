import Hpvc.ExecuterNetwork

/-! What one step of an executer in the network can do to its records, its contacts and its
sockets. -/
namespace Hpvc.Executer

open RequestReply

variable {Bytes : Type}

/-- The VMs that came from other hosts. -/
def guests (s : State) : Nat := s.metadatas.countP VMMetadata.guest

/-- A step of the actor that contacts no target, sends no metadata and takes no VM in. -/
structure Quiet (s next : State) : Prop where
  contacts : next.contacts = s.contacts
  sent : next.sent = s.sent
  guests : guests next = guests s

/-- The sockets with one link set. -/
def Network.linked (n : Network Bytes) (client : Client) (link : Link String Bytes) :
    Sockets String Client Bytes :=
  { n.sockets with links := Function.update n.sockets.links client link }

/-- The sockets after a server has taken a request to which it has not replied. -/
def Network.taken (n : Network Bytes) (server : String) (client : Client) : Sockets String Client Bytes :=
  ⟨Function.update n.sockets.links client .received, Function.update n.sockets.owed server (some client)⟩

/-- A server gets the next message from a client. -/
structure Gets (n : Network Bytes) (server : String) (client : Client) (message : Bytes) : Prop where
  free : n.sockets.owed server = none
  asks : n.sockets.links client = .asked server message

/-- What an event leads to, by what it does to the sockets. -/
inductive Moves (site : Site Bytes) (n : Network Bytes) : NetworkEvent → Network Bytes → Prop where
  | within (event : NetworkEvent) (next : Host) (quiet : Quiet (n.actor event.host) next.actor)
      (kept : ∀ contact, n.phase event.host = .signalling contact →
        next.actor.vmName = (n.actor event.host).vmName ∧ next.actor.mode = (n.actor event.host).mode) :
      Moves site n event (n.set event.host ⟨next, n.phase event.host⟩ n.sockets)
  | contacted (host vmName target ip : String) (next : Host) (waiting : n.phase host = .waiting)
      (polls : next.actor.mode = .polling) (vm : next.actor.vmName = vmName)
      (contacts : next.actor.contacts = (n.actor host).contacts ++ [(ip, vmName)])
      (sent : next.actor.sent = (n.actor host).sent) (same : guests next.actor = guests (n.actor host))
      (idle : n.sockets.links (host, (n.actor host).contacts.length) = .idle) :
      Moves site n (.request host vmName target) (n.set host ⟨next, .signalling (n.actor host).contacts.length⟩
        (n.linked (host, (n.actor host).contacts.length) (.asked ip (site.messages.text "1"))))
  | signalled (host : String) (contact : Nat) (ip vmName : String) (reply : Bytes)
      (blocked : n.phase host = .signalling contact) (contacted : (n.actor host).contacts[contact]? = some (ip, vmName))
      (is : n.sockets.links (host, contact) = .answered reply) :
      Moves site n (.signalled host) (n.set host ⟨(n.parties host).host, .waiting⟩
        (n.linked (host, contact) (.asked ip (site.messages.text (n.actor host).vmName))))
  | replied (host : String) (contact : Nat) (completed : Bool) (next : Host) (reply : Bytes)
      (waiting : n.phase host = .waiting) (is : n.sockets.links (host, contact) = .answered reply)
      (quiet : Quiet (n.actor host) next.actor) :
      Moves site n (.reply host contact completed) (n.set host ⟨next, .waiting⟩ (n.linked (host, contact) .idle))
  | left (host : String) (contact : Nat) (completed : Bool) (next : Host) (reply : Bytes) (ip vmName : String)
      (md : TeleportMetadata) (waiting : n.phase host = .waiting)
      (is : n.sockets.links (host, contact) = .answered reply)
      (contacted : (n.actor host).contacts[contact]? = some (ip, vmName))
      (contacts : next.actor.contacts = (n.actor host).contacts)
      (sent : next.actor.sent = (n.actor host).sent ++ [(contact, md)])
      (same : guests next.actor = guests (n.actor host)) :
      Moves site n (.reply host contact completed) (n.set host ⟨next, .waiting⟩
        (n.linked (host, contact) (.asked ip (site.messages.pack md))))
  | knocked (host : String) (client : Client) (smsg : Bytes) (waiting : n.phase host = .waiting)
      (gets : Gets n host client smsg) :
      Moves site n (.knock host client) (n.set host ⟨(n.parties host).host, .named⟩
        (n.linked client (.answered site.messages.signal)))
  | misread (host : String) (client : Client) (smsg : Bytes) (waiting : n.phase host = .waiting)
      (gets : Gets n host client smsg) (other : (site.messages.readText smsg).toList.head? ≠ some '1') :
      Moves site n (.knock host client) (n.set host (n.parties host) (n.taken host client))
  | launched (host : String) (client : Client) (smsg : Bytes) (named : n.phase host = .named)
      (gets : Gets n host client smsg) (known : site.registered host (site.messages.readText smsg) = true) :
      Moves site n (.name host client true)
        (n.set host ⟨(n.parties host).host, .serving (site.messages.readText smsg)⟩
          (n.linked client (.answered (site.messages.text "2"))))
  | dropped (event : NetworkEvent) (client : Client) (message : Bytes) (gets : Gets n event.host client message)
      (inside : ∀ contact, n.phase event.host ≠ .signalling contact) :
      Moves site n event (n.set event.host ⟨(n.parties event.host).host.exited, n.phase event.host⟩
        (n.taken event.host client))
  | arrived (host : String) (client : Client) (frame : Bytes) (vmName : String) (md : TeleportMetadata)
      (next : Host) (moves : Bool) (serving : n.phase host = .serving vmName) (gets : Gets n host client frame)
      (unpacked : site.messages.unpack frame = some md)
      (moved : hostStep host (n.parties host).host (.arrive vmName md) = some next) :
      Moves site n (.frame host client moves)
        (n.set host ⟨next.printHistory moves, .waiting⟩ (n.taken host client))

theorem printHistory_guests (moved : Bool) (host : Host) :
    guests (host.printHistory moved).actor = guests host.actor := by
  rw [guests,printHistory_metadatas,guests]

theorem guests_start (hostIp vmName : String) (session : Nat) (metadatas : List VMMetadata) :
    (metadatas ++ [startMetadata hostIp vmName session]).countP VMMetadata.guest =
      metadatas.countP VMMetadata.guest := by
  rw [List.countP_append]
  rfl

theorem guests_message (hostIp : String) (session : Nat) (metadatas : List VMMetadata) :
    (metadatas ++ [messageMetadata hostIp session]).countP VMMetadata.guest =
      metadatas.countP VMMetadata.guest := by
  rw [List.countP_append]
  rfl

theorem guests_arrive (hostIp vmName : String) (session : Nat) (md : TeleportMetadata)
    (metadatas : List VMMetadata) :
    (metadatas ++ [guestMetadata hostIp vmName session md]).countP VMMetadata.guest =
      metadatas.countP VMMetadata.guest + 1 := by
  rw [List.countP_append]
  rfl

/-- Marking a record does not change where its VM came from. -/
theorem guests_markTeleported (metadatas : List VMMetadata) (i : Nat) :
    (markTeleported metadatas i).countP VMMetadata.guest = metadatas.countP VMMetadata.guest := by
  have same : (markTeleported metadatas i).map VMMetadata.guest = metadatas.map VMMetadata.guest := by
    apply List.ext_getElem?
    intro j
    rw [markTeleported,List.getElem?_map,List.getElem?_modify,List.getElem?_map,Option.map_eq_map,Option.map_map]
    congr 1
    funext md
    simp only [Function.comp_apply]
    split <;> rfl
  have counted (l : List VMMetadata) : l.countP VMMetadata.guest = (l.map VMMetadata.guest).countP id := by
    rw [List.countP_map]
    rfl
  rw [counted,counted,same]

/-- A step of one actor that is no arrival takes nobody in. -/
theorem hostStep_guests {hostIp : String} {host next : Host} {event : HostEvent}
    (other : ∀ vmName md, event ≠ .arrive vmName md) (taken : hostStep hostIp host event = some next) :
    guests next.actor = guests host.actor := by
  have moved := (hostStep_some.mp taken).2.2
  cases event with
  | arrive vmName md => exact absurd rfl (other vmName md)
  | start vmName =>
    rw [recorded_cases moved]
    exact guests_message hostIp _ _
  | request vmName target => rw [guests,guests,(request_cases moved).1]
  | reply contact text completed =>
    rcases reply_cases moved with ⟨_, is⟩ | is | is
    · rw [is]
      rcases teleport_cases hostIp { host.actor with answered := contact :: host.actor.answered } contact
          host.opened completed with ⟨i, md, _, _, records⟩ | ⟨_, _, records⟩
      · rw [guests,records]
        cases completed
        · rfl
        · exact guests_markTeleported _ _
      · rw [guests,records]
        exact guests_start _ _ _ _
    · rw [is]
      rfl
    · rw [is]
      rfl

/-- What a request leaves alone, and that the actor is back at its poller. -/
theorem request_rest {hostIp : String} {s next : State} {vmName target : String}
    (taken : step hostIp s (.request vmName target) = some next) :
    next.sent = s.sent ∧ next.mode = .polling := by
  simp only [step] at taken
  split at taken
  · contradiction
  · unfold handleRequest at taken
    split at taken
    · cases taken
      exact ⟨rfl, rfl⟩
    · split at taken
      · contradiction
      · cases taken
        exact ⟨rfl, rfl⟩

/-- A teleport sends the metadata of one VM, or nothing. -/
theorem teleport_sent (hostIp : String) (s : State) (contact session : Nat) (completed : Bool) :
    (teleport hostIp s contact session completed).sent = s.sent ∨
      ∃ md, (teleport hostIp s contact session completed).sent = s.sent ++ [(contact, md)] := by
  unfold teleport
  split
  · cases completed
    · exact .inl rfl
    · exact .inr ⟨_, rfl⟩
  · cases completed
    · exact .inl rfl
    · exact .inr ⟨_, rfl⟩

/-- A reply opens no socket, and only a teleport in answer to it sends anything. -/
theorem reply_sent {hostIp : String} {s next : State} {contact session : Nat} {text : String}
    {completed : Bool} (taken : step hostIp s (.reply contact text session completed) = some next) :
    next.contacts = s.contacts ∧ (next.sent = s.sent ∨
      s.sender = some contact ∧ ∃ md, next.sent = s.sent ++ [(contact, md)]) := by
  refine ⟨(other_kept rfl taken).contacts, ?_⟩
  rcases reply_cases taken with ⟨handled, rfl⟩ | rfl | rfl
  · rcases teleport_sent hostIp { s with answered := contact :: s.answered } contact session completed with
      same | ⟨md, more⟩
    · exact .inl same
    · exact .inr ⟨handled.2.1, md, more⟩
  · exact .inl rfl
  · exact .inl rfl

variable {site : Site Bytes} {n next : Network Bytes}

theorem started_moves {host vmName : String}
    (taken : (hostStep host (n.parties host).host (.start vmName)).map (fun next =>
      n.set host ⟨next, n.phase host⟩ n.sockets) = some next) : Moves site n (.start host vmName) next := by
  obtain ⟨moved, is, rfl⟩ := Option.map_eq_some_iff.mp taken
  have same := hostStep_guests (by simp) is
  have recorded := recorded_cases (hostStep_some.mp is).2.2
  refine .within (.start host vmName) moved ⟨?_, ?_, same⟩ fun contact blocked => ?_
  · rw [recorded]
    rfl
  · rw [recorded]
    rfl
  · rw [recorded]
    exact ⟨rfl, rfl⟩

theorem takeRequest_moves {host vmName target : String}
    (taken : takeRequest site n host vmName target = some next) :
    Moves site n (.request host vmName target) next := by
  simp only [takeRequest] at taken
  split at taken
  next waiting =>
    obtain ⟨asked, moved, taken⟩ := Option.bind_eq_some_iff.mp taken
    have same := hostStep_guests (by simp) moved
    have requested := (hostStep_some.mp moved).2.2
    obtain ⟨sent, polls⟩ := request_rest requested
    obtain ⟨_, _, vm, ⟨_, _, _, contacts⟩ | ⟨ip, _, _, _, contacts⟩⟩ := request_cases requested
    · rw [contacts,List.getElem?_eq_none (Nat.le_refl _)] at taken
      cases taken
      have at_poller : n.phase host = .waiting := waiting
      have moves : Moves site n _ _ := .within (.request host vmName target) asked ⟨contacts, sent, same⟩
        fun contact blocked => by
          rw [NetworkEvent.host,at_poller] at blocked
          contradiction
      rwa [NetworkEvent.host,at_poller] at moves
    · rw [contacts,List.getElem?_concat_length] at taken
      obtain ⟨sockets, asks, rfl⟩ := Option.map_eq_some_iff.mp taken
      obtain ⟨idle, rfl⟩ := Sockets.ask_some.mp asks
      exact .contacted host vmName target ip asked waiting polls vm contacts sent same idle
  next => contradiction

theorem takeSignal_moves {host : String} (taken : takeSignal site n host = some next) :
    Moves site n (.signalled host) next := by
  simp only [takeSignal] at taken
  split at taken
  next contact blocked =>
    obtain ⟨⟨reply, sockets⟩, collected, taken⟩ := Option.bind_eq_some_iff.mp taken
    obtain ⟨⟨ip, vmName⟩, contacted, taken⟩ := Option.bind_eq_some_iff.mp taken
    rw [Sockets.collect_ask collected] at taken
    cases taken
    exact .signalled host contact ip vmName reply blocked contacted (Sockets.collect_some.mp collected).1
  next => contradiction

theorem takeReply_moves {host : String} {contact : Nat} {completed : Bool}
    (taken : takeReply site n host contact completed = some next) :
    Moves site n (.reply host contact completed) next := by
  simp only [takeReply] at taken
  split at taken
  next waiting =>
    split at taken
    next text is =>
      obtain ⟨replied, moved, taken⟩ := Option.bind_eq_some_iff.mp taken
      have same := hostStep_guests (by simp) moved
      obtain ⟨contacts, sent⟩ := reply_sent (hostStep_some.mp moved).2.2
      split at taken
      next current =>
        obtain ⟨⟨reply, sockets⟩, collected, taken⟩ := Option.bind_eq_some_iff.mp taken
        rcases sent with sent | ⟨_, md, sent⟩
        · rw [sent,List.getElem?_eq_none (Nat.le_refl _)] at taken
          cases taken
          obtain ⟨_, rfl⟩ := Sockets.collect_some.mp collected
          exact .replied host contact completed replied text waiting is ⟨contacts, sent, same⟩
        · rw [sent,List.getElem?_concat_length] at taken
          obtain ⟨⟨ip, vmName⟩, contacted, taken⟩ := Option.bind_eq_some_iff.mp taken
          rw [Sockets.collect_ask collected] at taken
          cases taken
          exact .left host contact completed replied text ip vmName md waiting is contacted contacts sent same
      next other =>
        cases taken
        have at_poller : n.phase host = .waiting := waiting
        have nothing : replied.actor.sent = (n.parties host).host.actor.sent := by
          rcases sent with sent | ⟨current, _⟩
          · exact sent
          · exact absurd current other
        have moves : Moves site n _ _ := .within (.reply host contact completed) replied
          ⟨contacts, nothing, same⟩ fun contact blocked => by
            rw [NetworkEvent.host,at_poller] at blocked
            contradiction
        rwa [NetworkEvent.host,at_poller] at moves
    next => contradiction
  next => contradiction

theorem takeKnock_moves {host : String} {client : Client} (taken : takeKnock site n host client = some next) :
    Moves site n (.knock host client) next := by
  simp only [takeKnock] at taken
  split at taken
  next ready =>
    obtain ⟨⟨smsg, sockets⟩, received, taken⟩ := Option.bind_eq_some_iff.mp taken
    obtain ⟨free, asks, is⟩ := Sockets.receive_some.mp received
    split at taken
    · rw [Sockets.receive_answer received] at taken
      cases taken
      exact .knocked host client smsg ready.1 ⟨free, asks⟩
    next other =>
      cases taken
      rw [is]
      exact .misread host client smsg ready.1 ⟨free, asks⟩ other
  next => contradiction

theorem takeName_moves {host : String} {client : Client} {launched : Bool}
    (taken : takeName site n host client launched = some next) :
    Moves site n (.name host client launched) next := by
  simp only [takeName] at taken
  split at taken
  next named =>
    obtain ⟨⟨smsg, sockets⟩, received, taken⟩ := Option.bind_eq_some_iff.mp taken
    obtain ⟨free, asks, is⟩ := Sockets.receive_some.mp received
    split at taken
    next known =>
      rw [Sockets.receive_answer received] at taken
      cases taken
      obtain ⟨known, rfl⟩ := known
      exact .launched host client smsg named ⟨free, asks⟩ known
    next =>
      cases taken
      have in_handshake : n.phase host = .named := named
      have moves : Moves site n _ _ := .dropped (.name host client launched) client smsg ⟨free, asks⟩
        fun contact blocked => by
          rw [NetworkEvent.host,in_handshake] at blocked
          contradiction
      rw [is]
      rwa [NetworkEvent.host,in_handshake] at moves
  next => contradiction

theorem takeFrame_moves {host : String} {client : Client} {moves : Bool}
    (taken : takeFrame site n host client moves = some next) : Moves site n (.frame host client moves) next := by
  simp only [takeFrame] at taken
  split at taken
  next vmName serving =>
    obtain ⟨⟨frame, sockets⟩, received, taken⟩ := Option.bind_eq_some_iff.mp taken
    obtain ⟨free, asks, is⟩ := Sockets.receive_some.mp received
    split at taken
    next =>
      cases taken
      rw [is]
      refine .dropped (.frame host client moves) client frame ⟨free, asks⟩ fun contact blocked => ?_
      have contrary := serving.symm.trans blocked
      contradiction
    next md unpacked =>
      obtain ⟨arrived, moved, rfl⟩ := Option.map_eq_some_iff.mp taken
      rw [is]
      exact .arrived host client frame vmName md arrived moves serving ⟨free, asks⟩ unpacked moved
  next => contradiction

/-- A step is of a host that runs, and makes one of the moves. -/
theorem networkStep_moves {event : NetworkEvent} (taken : networkStep site n event = some next) :
    event.host ∈ site.hosts ∧ (n.actor event.host).mode ≠ .exited ∧ Moves site n event next := by
  simp only [networkStep] at taken
  split at taken
  next runs =>
    refine ⟨runs.1, runs.2, ?_⟩
    cases event with
    | start host vmName => exact started_moves taken
    | request host vmName target => exact takeRequest_moves taken
    | signalled host => exact takeSignal_moves taken
    | reply host contact completed => exact takeReply_moves taken
    | knock host client => exact takeKnock_moves taken
    | name host client launched => exact takeName_moves taken
    | frame host client => exact takeFrame_moves taken
    | failed host =>
      dsimp only at taken
      split at taken
      next vmName serving =>
        cases taken
        have moves : Moves site n _ _ := .within (.failed host) (n.parties host).host.exited
          ⟨rfl, rfl, rfl⟩ fun contact blocked => by
            rw [NetworkEvent.host,serving] at blocked
            contradiction
        rwa [NetworkEvent.host,serving] at moves
      next => contradiction
  next => contradiction

section Taken

variable {host server ip name vmName : String} {contact k : Nat} {client : Client} {h asked moved : Host}
  {md : TeleportMetadata}

/-- A request whose address is found. -/
theorem request_sends {target : String} (inside : host ∈ site.hosts) (runs : h.actor.mode ≠ .exited)
    (at_pipe : n.parties host = ⟨h, .waiting⟩) (requested : hostStep host h (.request vmName target) = some asked)
    (contacted : asked.actor.contacts[h.actor.contacts.length]? = some (ip, name))
    (idle : n.sockets.links (host, h.actor.contacts.length) = .idle) :
    networkStep site n (.request host vmName target) =
      some (n.set host ⟨asked, .signalling h.actor.contacts.length⟩
        (n.linked (host, h.actor.contacts.length) (.asked ip (site.messages.text "1")))) := by
  have sends : n.sockets.ask (host, h.actor.contacts.length) ip (site.messages.text "1") =
      some (n.linked (host, h.actor.contacts.length) (.asked ip (site.messages.text "1"))) :=
    Sockets.ask_some.mpr ⟨idle, rfl⟩
  rw [networkStep,NetworkEvent.host,if_pos ⟨inside, by rwa [Network.actor,at_pipe]⟩]
  simp only [takeRequest,at_pipe,if_true,requested,Option.bind_some,contacted]
  rw [sends,Option.map_some]

/-- A signal that has come. -/
theorem signal_sends {reply : Bytes} (inside : host ∈ site.hosts) (runs : h.actor.mode ≠ .exited)
    (blocked : n.parties host = ⟨h, .signalling contact⟩)
    (answered : n.sockets.links (host, contact) = .answered reply)
    (contacted : h.actor.contacts[contact]? = some (ip, name)) :
    networkStep site n (.signalled host) = some (n.set host ⟨h, .waiting⟩
      (n.linked (host, contact) (.asked ip (site.messages.text h.actor.vmName)))) := by
  have collected : n.sockets.collect (host, contact) = some (reply, n.linked (host, contact) .idle) :=
    Sockets.collect_some.mpr ⟨answered, rfl⟩
  rw [networkStep,NetworkEvent.host,if_pos ⟨inside, by rwa [Network.actor,blocked]⟩]
  simp only [takeSignal,blocked,collected,contacted,Option.bind_some]
  rw [Sockets.collect_ask collected]
  rfl

/-- A "2" for the newest contact, and a teleport that completes. -/
theorem reply_sends (inside : host ∈ site.hosts) (runs : h.actor.mode ≠ .exited)
    (at_poller : n.parties host = ⟨h, .waiting⟩)
    (answered : n.sockets.links (host, contact) = .answered (site.messages.text "2"))
    (replied : hostStep host h (.reply contact "2" true) = some moved) (current : h.actor.sender = some contact)
    (frame : moved.actor.sent[h.actor.sent.length]? = some (k, md))
    (contacted : h.actor.contacts[contact]? = some (ip, name)) :
    networkStep site n (.reply host contact true) =
      some (n.set host ⟨moved, .waiting⟩ (n.linked (host, contact) (.asked ip (site.messages.pack md)))) := by
  have collected : n.sockets.collect (host, contact) =
      some (site.messages.text "2", n.linked (host, contact) .idle) := Sockets.collect_some.mpr ⟨answered, rfl⟩
  rw [networkStep,NetworkEvent.host,if_pos ⟨inside, by rwa [Network.actor,at_poller]⟩]
  simp only [takeReply,at_poller,if_true,answered,site.messages.readText_text,replied,Option.bind_some,
    current,collected,frame,contacted]
  rw [Sockets.collect_ask collected]
  rfl

/-- A "1" at the listener. -/
theorem knock_signals (inside : server ∈ site.hosts) (polls : h.actor.mode = .polling)
    (at_poller : n.parties server = ⟨h, .waiting⟩) (gets : Gets n server client (site.messages.text "1")) :
    networkStep site n (.knock server client) = some (n.set server ⟨h, .named⟩
      (n.linked client (.answered site.messages.signal))) := by
  have received : n.sockets.receive server client = some (site.messages.text "1", n.taken server client) :=
    Sockets.receive_some.mpr ⟨gets.free, gets.asks, rfl⟩
  have one : (site.messages.readText (site.messages.text "1")).toList.head? = some '1' := by
    rw [site.messages.readText_text]
    rfl
  rw [networkStep,NetworkEvent.host,if_pos ⟨inside, by rw [Network.actor,at_poller,polls]; decide⟩]
  simp only [takeKnock,at_poller,polls,and_self,if_true,received,Option.bind_some,if_pos one]
  rw [Sockets.receive_answer received]
  rfl

/-- The name of a VM that can be started. -/
theorem name_replies (inside : server ∈ site.hosts) (runs : h.actor.mode ≠ .exited)
    (named : n.parties server = ⟨h, .named⟩) (gets : Gets n server client (site.messages.text vmName))
    (known : site.registered server vmName = true) :
    networkStep site n (.name server client true) = some (n.set server ⟨h, .serving vmName⟩
      (n.linked client (.answered (site.messages.text "2")))) := by
  have received : n.sockets.receive server client = some (site.messages.text vmName, n.taken server client) :=
    Sockets.receive_some.mpr ⟨gets.free, gets.asks, rfl⟩
  rw [networkStep,NetworkEvent.host,if_pos ⟨inside, by rwa [Network.actor,named]⟩]
  simp only [takeName,named,if_true,received,Option.bind_some,site.messages.readText_text,known,and_self]
  rw [Sockets.receive_answer received]
  rfl

/-- The metadata, for a VM that arrives. -/
theorem frame_arrives (inside : server ∈ site.hosts) (runs : h.actor.mode ≠ .exited)
    (serving : n.parties server = ⟨h, .serving vmName⟩) (gets : Gets n server client (site.messages.pack md))
    (arrived : hostStep server h (.arrive vmName md) = some moved) (moves : Bool) :
    networkStep site n (.frame server client moves) =
      some (n.set server ⟨moved.printHistory moves, .waiting⟩ (n.taken server client)) := by
  have received : n.sockets.receive server client = some (site.messages.pack md, n.taken server client) :=
    Sockets.receive_some.mpr ⟨gets.free, gets.asks, rfl⟩
  rw [networkStep,NetworkEvent.host,if_pos ⟨inside, by rwa [Network.actor,serving]⟩]
  simp only [takeFrame,serving,received,Option.bind_some,site.messages.unpack_pack,arrived,Option.map_some]

/-- A start. -/
theorem start_steps (inside : host ∈ site.hosts) (runs : h.actor.mode ≠ .exited)
    {phase : Phase} (at_phase : n.parties host = ⟨h, phase⟩)
    (started : hostStep host h (.start vmName) = some moved) :
    networkStep site n (.start host vmName) = some (n.set host ⟨moved, phase⟩ n.sockets) := by
  rw [networkStep,NetworkEvent.host,if_pos ⟨inside, by rwa [Network.actor,at_phase]⟩]
  simp only [at_phase,started,Option.map_some,Network.phase]

end Taken

end Hpvc.Executer
