import Hpvc.ExecuterHandshake
import Mathlib.Data.Fintype.EquivFin
import Mathlib.Data.Set.Basic

/-! Which actors hang in a `zsock_wait`. The target has to come back to its poller to take the "1", and
may itself be waiting for the signal of another host; so who hangs is read off a chain of hosts. -/
namespace Hpvc.Executer

open RequestReply

variable {Bytes : Type} {site : Site Bytes} {n next : Network Bytes}

/-- An actor waits for a signal of the host with the address, and none is there. -/
def Blocked (n : Network Bytes) (host ip : String) : Prop :=
  ∃ contact vmName, n.phase host = .signalling contact ∧ Contacts n (host, contact) ip vmName ∧
    ∀ reply, n.sockets.links (host, contact) ≠ .answered reply

/-- Hosts that wait for each other, or for hosts whose listeners are closed. -/
def Stuck (site : Site Bytes) (n : Network Bytes) (hosts : Set String) : Prop :=
  ∀ host ∈ hosts, ∃ ip, Blocked n host ip ∧ (ip ∈ hosts ∨ Closed site n ip)

/-- An actor that waits for its signal only records VMs that are started. -/
theorem moves_signalling {event : NetworkEvent} {contact : Nat} (moves : Moves site n event next)
    (blocked : n.phase event.host = .signalling contact)
    (unanswered : ∀ reply, n.sockets.links (event.host, contact) ≠ .answered reply) :
    next.phase event.host = n.phase event.host ∧ next.sockets = n.sockets ∧
      (next.actor event.host).contacts = (n.actor event.host).contacts ∧
      (next.actor event.host).mode = (n.actor event.host).mode := by
  cases moves with
  | within _ moved quiet kept =>
    rw [set_phase_self,set_actor_self]
    exact ⟨rfl, rfl, quiet.contacts, (kept contact blocked).2⟩
  | contacted host vmName target ip moved waiting => cases waiting.symm.trans blocked
  | signalled host k ip vmName reply at_signal _ answered =>
    cases at_signal.symm.trans blocked
    exact absurd answered (unanswered reply)
  | replied host k completed moved reply waiting => cases waiting.symm.trans blocked
  | left host k completed moved reply ip vmName md waiting => cases waiting.symm.trans blocked
  | knocked host client smsg waiting => cases waiting.symm.trans blocked
  | misread host client smsg waiting => cases waiting.symm.trans blocked
  | launched host client smsg named => cases named.symm.trans blocked
  | dropped _ client message _ inside => exact absurd blocked (inside contact)
  | arrived host client frame vmName md moved moves serving => cases serving.symm.trans blocked

/-- What becomes of a link: only its own host touches it, or the listener that gets its message,
which is closed afterwards. -/
theorem moves_link {event : NetworkEvent} (moves : Moves site n event next) (client : Client)
    (other : client.1 ≠ event.host) :
    next.sockets.links client = n.sockets.links client ∨
      ∃ message, Gets n event.host client message ∧ Closed site next event.host ∧
        (next.sockets.links client = .received ∨ n.phase event.host = .waiting ∨
          n.phase event.host = .named ∧
            site.registered event.host (site.messages.readText message) = true) := by
  have own (contact : Nat) : client ≠ (event.host, contact) := fun same => other (congrArg Prod.fst same)
  cases moves with
  | within => exact .inl rfl
  | contacted => exact .inl (linked_of_ne n _ (own _))
  | signalled => exact .inl (linked_of_ne n _ (own _))
  | replied => exact .inl (linked_of_ne n _ (own _))
  | left => exact .inl (linked_of_ne n _ (own _))
  | knocked host server smsg waiting gets =>
    by_cases same : client = server
    · subst same
      exact .inr ⟨smsg, gets, .inr (.inr (.inr (.inl (set_phase_self ..)))), .inr (.inl waiting)⟩
    · exact .inl (linked_of_ne n _ same)
  | misread host server smsg waiting gets =>
    by_cases same : client = server
    · subst same
      exact .inr ⟨smsg, gets, .inr (.inr (.inl (by simp [Network.taken,NetworkEvent.host]))),
        .inl (Function.update_self ..)⟩
    · exact .inl (Function.update_of_ne same ..)
  | launched host server smsg named gets known =>
    by_cases same : client = server
    · subst same
      exact .inr ⟨smsg, gets, .inr (.inr (.inr (.inr ⟨_, set_phase_self ..⟩))), .inr (.inr ⟨named, known⟩)⟩
    · exact .inl (linked_of_ne n _ same)
  | dropped event server message gets =>
    by_cases same : client = server
    · subst same
      exact .inr ⟨message, gets, .inr (.inr (.inl (by simp [Network.taken]))), .inl (Function.update_self ..)⟩
    · exact .inl (Function.update_of_ne same ..)
  | arrived host server frame vmName md moved moves serving gets =>
    by_cases same : client = server
    · subst same
      exact .inr ⟨frame, gets, .inr (.inr (.inl (by simp [Network.taken,NetworkEvent.host]))),
        .inl (Function.update_self ..)⟩
    · exact .inl (Function.update_of_ne same ..)

/-- A waiting actor stays where it is; its listener and its contact are as they were, and so is its
link, unless its target has got the message. -/
theorem waits_on {event : NetworkEvent} {host : String} {contact : Nat}
    (taken : networkStep site n event = some next) (blocked : n.phase host = .signalling contact)
    (unanswered : ∀ reply, n.sockets.links (host, contact) ≠ .answered reply) :
    next.phase host = .signalling contact ∧ (next.actor host).contacts = (n.actor host).contacts ∧
      (Closed site next host → Closed site n host) ∧
      (next.sockets.links (host, contact) = n.sockets.links (host, contact) ∨
        ∃ message, Gets n event.host (host, contact) message ∧ Closed site next event.host ∧
          (next.sockets.links (host, contact) = .received ∨ n.phase event.host = .waiting ∨
            n.phase event.host = .named ∧
              site.registered event.host (site.messages.readText message) = true)) := by
  obtain ⟨inside, runs, moves⟩ := networkStep_moves taken
  by_cases here : host = event.host
  · subst here
    obtain ⟨phase, sockets, contacts, mode⟩ := moves_signalling moves blocked unanswered
    refine ⟨phase.trans blocked, contacts, ?_, .inl (by rw [sockets])⟩
    rw [Closed,phase,sockets,mode]
    exact id
  · obtain ⟨actor, phase, owed⟩ := moves_others moves here
    refine ⟨phase.trans blocked, by rw [actor], ?_, moves_link moves (host, contact) here⟩
    rw [Closed,actor,phase,owed]
    exact id

/-- Who is stuck stays stuck. -/
theorem Stuck.step {hosts : Set String} (stuck : Stuck site n hosts) (order : InOrder site n)
    (unnamed : ∀ host, site.registered host "1" = false) {event : NetworkEvent}
    (taken : networkStep site n event = some next) : Stuck site next hosts := by
  obtain ⟨inside, runs, _⟩ := networkStep_moves taken
  intro host member
  obtain ⟨ip, ⟨contact, vmName, blocked, contacted, unanswered⟩, target⟩ := stuck host member
  obtain ⟨phase, contacts, _, link⟩ := waits_on taken blocked unanswered
  have still : Contacts next (host, contact) ip vmName := by
    rw [Contacts,contacts]
    exact contacted
  refine ⟨ip, ⟨contact, vmName, phase, still, ?_⟩, ?_⟩
  · rcases link with same | ⟨message, gets, _, received | waiting | ⟨named, known⟩⟩
    · rw [same]
      exact unanswered
    · intro reply
      rw [received]
      simp
    · -- A target at its poller is neither closed nor one of the hosts.
      obtain ⟨vm, ours⟩ := order.addressed _ event.host message gets.asks
      cases contacted.symm.trans ours
      rcases target with ours | closed
      · obtain ⟨_, ⟨k, _, waits, _⟩, _⟩ := stuck event.host ours
        cases waiting.symm.trans waits
      · exact absurd closed (opened_at_poller inside runs gets waiting)
    · -- In a handshake, what it gets from another contact is a "1", which is no VM.
      obtain ⟨client, vm, _, alone, greeted⟩ := order.named event.host named runs
      rcases alone.gets order gets with rfl | rfl
      · rcases greeted with ⟨_, reply, answered⟩ | ⟨free, _⟩
        · exact absurd answered (unanswered reply)
        · exact absurd blocked free
      · rw [site.messages.readText_text,unnamed] at known
        contradiction
  · rcases target with ours | closed
    · exact .inl ours
    · exact .inr (closed.step taken)

/-- A host whose listener is open and whose actor waits for no signal, or waits for one of a host that leads
there in one step less. -/
inductive Leads (site : Site Bytes) (n : Network Bytes) : Nat → String → Prop where
  | free (host : String) (opened : ¬ Closed site n host) (unblocked : ∀ ip, ¬ Blocked n host ip) :
      Leads site n 0 host
  | waits (host ip : String) (k : Nat) (opened : ¬ Closed site n host) (blocked : Blocked n host ip)
      (leads : Leads site n k ip) : Leads site n (k + 1) host

/-- Who can take a first message. -/
structure Ready (site : Site Bytes) (n : Network Bytes) (host : String) : Prop where
  opened : ¬ Closed site n host
  waiting : n.phase host = .waiting
  polls : (n.actor host).mode = .polling

/-- The contact of a host that waits, its "1" still on the way. -/
structure Waits (site : Site Bytes) (n : Network Bytes) (client : Client) (server vmName : String) : Prop where
  knocking : Knocking site n client server
  contacted : Contacts n client server vmName

theorem Waits.unanswered {client : Client} {server vmName : String} (waits : Waits site n client server vmName)
    (reply : Bytes) : n.sockets.links client ≠ .answered reply := by
  rw [waits.knocking.2]
  simp

/-- A "1" stays on the way until the target's listener closes, and the host's own listener stays open. -/
theorem Waits.step {host : String} {contact : Nat} {server vmName : String}
    (waits : Waits site n (host, contact) server vmName) (order : InOrder site n) {event : NetworkEvent}
    (taken : networkStep site n event = some next) :
    Closed site next server ∨
      (Waits site next (host, contact) server vmName ∧ (Closed site next host → Closed site n host)) := by
  obtain ⟨phase, contacts, opened, link⟩ := waits_on taken waits.knocking.1 waits.unanswered
  rcases link with same | ⟨message, gets, closed, _⟩
  · refine .inr ⟨⟨⟨phase, same.trans waits.knocking.2⟩, ?_⟩, opened⟩
    rw [Contacts,contacts]
    exact waits.contacted
  · obtain ⟨vm, ours⟩ := order.addressed _ event.host message gets.asks
    cases waits.contacted.symm.trans ours
    exact .inl closed

theorem Waits.run {host : String} {contact : Nat} {server vmName : String}
    (waits : Waits site n (host, contact) server vmName) (order : InOrder site n)
    (unnamed : ∀ host, site.registered host "1" = false) {events : List NetworkEvent} {final : Network Bytes}
    (reached : Runs.run (networkStep site) n events = some final) (opened : ¬ Closed site final server) :
    Waits site final (host, contact) server vmName ∧ (Closed site final host → Closed site n host) := by
  have kept : InOrder site final ∧ (Closed site final server ∨
      (Waits site final (host, contact) server vmName ∧ (Closed site final host → Closed site n host))) := by
    refine Runs.run_invariant (fun state => InOrder site state ∧ (Closed site state server ∨
      (Waits site state (host, contact) server vmName ∧ (Closed site state host → Closed site n host))))
      (fun state event after ⟨ordered, now⟩ taken => ⟨ordered.step unnamed taken, ?_⟩)
      ⟨order, .inr ⟨waits, id⟩⟩ reached
    rcases now with closed | ⟨on_the_way, before⟩
    · exact .inl (closed.step taken)
    · rcases on_the_way.step ordered taken with closed | ⟨still, step⟩
      · exact .inl closed
      · exact .inr ⟨still, fun closed => before (step closed)⟩
  exact kept.2.resolve_left opened

/-- A signal that is there can be taken, and the host is back at its poller. -/
theorem takes_signal {host : String} {contact : Nat} {reply : Bytes} (order : InOrder site n)
    (inside : host ∈ site.hosts) (blocked : n.phase host = .signalling contact)
    (answered : n.sockets.links (host, contact) = .answered reply) :
    ∃ next, networkStep site n (.signalled host) = some next ∧ next.phase host = .waiting ∧
      (next.actor host).mode = .polling ∧ (Closed site next host → Closed site n host) := by
  obtain ⟨polls, ip, contacted, _⟩ := order.signalling host contact blocked
  have runs : (n.actor host).mode ≠ .exited := by simp [polls]
  have at_signal : n.parties host = ⟨(n.parties host).host, .signalling contact⟩ := by rw [← blocked]; rfl
  refine ⟨_, signal_sends inside runs at_signal answered contacted, set_phase_self .., ?_, ?_⟩
  · rw [set_actor_self]
    exact polls
  · rintro (out | gone | owed | named | ⟨_, serving⟩)
    · exact absurd inside out
    · rw [set_actor_self] at gone
      exact absurd gone runs
    · exact .inr (.inr (.inl owed))
    · rw [set_phase_self] at named
      contradiction
    · rw [set_phase_self] at serving
      contradiction

/-- A host that is ready takes a "1" and signals. -/
theorem takes_knock {client : Client} {server : String} (ready : Ready site n server)
    (knocking : Knocking site n client server) :
    ∃ next, networkStep site n (.knock server client) = some next ∧
      next.sockets.links client = .answered site.messages.signal := by
  obtain ⟨inside, runs, free, _⟩ := opened_cases ready.opened
  have at_poller : n.parties server = ⟨(n.parties server).host, .waiting⟩ := by rw [← ready.waiting]; rfl
  exact ⟨_, knock_signals inside ready.polls at_poller ⟨free, knocking.2⟩, linked_self ..⟩

/-- A host that waits for nothing comes to its poller: at the pipe, a request without an address will do. -/
theorem unblocked_ready {host : String} (order : InOrder site n) (opened : ¬ Closed site n host)
    (unblocked : ∀ ip, ¬ Blocked n host ip) :
    ∃ events final, Runs.run (networkStep site) n events = some final ∧ Ready site final host := by
  obtain ⟨inside, runs, owed, unnamed, unserving⟩ := opened_cases opened
  cases phase : n.phase host with
  | named => exact absurd phase unnamed
  | serving vmName => exact absurd phase (unserving vmName)
  | signalling contact =>
    obtain ⟨_, ip, contacted, _⟩ := order.signalling host contact phase
    obtain ⟨reply, answered⟩ : ∃ reply, n.sockets.links (host, contact) = .answered reply := by
      by_contra unanswered
      exact unblocked ip ⟨contact, _, phase, contacted, fun reply is => unanswered ⟨reply, is⟩⟩
    obtain ⟨next, taken, waiting, polls, closed⟩ := takes_signal order inside phase answered
    refine ⟨[.signalled host], next, ?_, ⟨fun now => opened (closed now), waiting, polls⟩⟩
    rw [Runs.run_cons,taken]
    rfl
  | waiting =>
    obtain ⟨vmName, unknown⟩ := Infinite.exists_notMem_finset
      ((n.actor host).metadatas.filterMap VMMetadata.name).toFinset
    have nowhere : resolve (n.actor host).metadatas vmName "home" = none := by
      rw [resolve,if_pos rfl,Option.map_eq_none_iff,findMetadata_eq_none]
      intro md member same
      exact unknown (List.mem_toFinset.mpr (List.mem_filterMap.mpr ⟨md, member, same⟩))
    obtain ⟨asked, moved, polls, contacts⟩ : ∃ asked, hostStep host (n.parties host).host
        (.request vmName "home") = some asked ∧ asked.actor.mode = .polling ∧
        asked.actor.contacts = (n.actor host).contacts := by
      have able : (n.parties host).host.actor.mode ≠ .exited := runs
      have unresolved : resolve (n.parties host).host.actor.metadatas vmName "home" = none := nowhere
      simp only [hostStep,HostEvent.ready,HostEvent.toEvent,step,handleRequest,unresolved,if_neg able,
        if_true,Option.map_some]
      exact ⟨_, rfl, rfl, rfl⟩
    have taken : networkStep site n (.request host vmName "home") =
        some (n.set host ⟨asked, .waiting⟩ n.sockets) := by
      have able : host ∈ site.hosts ∧ (n.actor host).mode ≠ .exited := ⟨inside, runs⟩
      have at_pipe : (n.parties host).phase = .waiting := phase
      have none : asked.actor.contacts[(n.parties host).host.actor.contacts.length]? = none := by
        rw [contacts]
        exact List.getElem?_eq_none (Nat.le_refl _)
      rw [networkStep,NetworkEvent.host,if_pos able]
      simp only [takeRequest,if_pos at_pipe,moved,Option.bind_some,none]
    refine ⟨[.request host vmName "home"], n.set host ⟨asked, .waiting⟩ n.sockets, ?_,
      ⟨?_, set_phase_self .., ?_⟩⟩
    · rw [Runs.run_cons,taken]
      rfl
    · rintro (out | gone | debt | named | ⟨_, serving⟩)
      · exact out inside
      · rw [set_actor_self,polls] at gone
        contradiction
      · exact debt owed
      · rw [set_phase_self] at named
        contradiction
      · rw [set_phase_self] at serving
        contradiction
    · rw [set_actor_self]
      exact polls

/-- A host whose "1" is on the way to a host that can become ready can be released. -/
theorem release {host : String} {contact : Nat} {ip vmName : String} {events : List NetworkEvent}
    {mid : Network Bytes} (order : InOrder site n) (unnamed : ∀ host, site.registered host "1" = false)
    (inside : host ∈ site.hosts) (waits : Waits site n (host, contact) ip vmName)
    (reached : Runs.run (networkStep site) n events = some mid) (ready : Ready site mid ip) :
    ∃ more final, Runs.run (networkStep site) n more = some final ∧ final.phase host = .waiting ∧
      (¬ Closed site n host → Ready site final host) := by
  have ordered : InOrder site mid := Runs.run_invariant (InOrder site)
    (fun _ _ _ before taken => before.step unnamed taken) order reached
  obtain ⟨still, host_open⟩ := waits.run order unnamed reached ready.opened
  obtain ⟨signalled, taken, answered⟩ := takes_knock ready still.knocking
  have ordered_next := ordered.step unnamed taken
  have other : host ≠ ip := still.knocking.apart ready.waiting
  obtain ⟨actor, phase, owed⟩ := moves_others (networkStep_moves taken).2.2 other
  obtain ⟨final, released, waiting, polls, closed⟩ :=
    takes_signal ordered_next inside (phase.trans still.knocking.1) answered
  refine ⟨events ++ [.knock ip (host, contact), .signalled host], final, ?_, waiting,
    fun opened => ⟨fun now => opened (host_open ?_), waiting, polls⟩⟩
  · rw [Runs.run_append,reached,Option.bind_some,Runs.run_cons,taken,Option.bind_some,Runs.run_cons,released]
    rfl
  · have before := closed now
    rw [Closed,actor,phase,owed] at before
    exact before

/-- A host in a chain can become ready. -/
theorem Leads.ready {k : Nat} {host : String} (leads : Leads site n k host) (order : InOrder site n)
    (unnamed : ∀ host, site.registered host "1" = false) :
    ∃ events final, Runs.run (networkStep site) n events = some final ∧ Ready site final host := by
  induction leads with
  | free host opened unblocked => exact unblocked_ready order opened unblocked
  | waits host ip k opened blocked leads ih =>
    obtain ⟨events, mid, reached, ready⟩ := ih
    obtain ⟨contact, vmName, at_signal, contacted, unanswered⟩ := blocked
    have target_open : ¬ Closed site n ip := by
      cases leads with
      | free _ opened _ => exact opened
      | waits _ _ _ opened _ _ => exact opened
    have knocking := order.untouched ip target_open (host, contact) vmName contacted
    obtain ⟨more, final, later, _, is_ready⟩ :=
      release order unnamed (opened_cases opened).1 ⟨knocking, contacted⟩ reached ready
    exact ⟨more, final, later, is_ready opened⟩

/-- Hosts that are not running wait for nothing. -/
theorem run_outside {events : List NetworkEvent} {host : String} (outside : host ∉ site.hosts)
    (reached : Runs.run (networkStep site) (emptyNetwork Bytes) events = some n) : n.phase host = .waiting := by
  refine Runs.run_invariant (fun state : Network Bytes => state.phase host = .waiting)
    (fun state event after before taken => ?_) rfl reached
  obtain ⟨inside, _, moves⟩ := networkStep_moves taken
  have other : host ≠ event.host := by
    rintro rfl
    exact outside inside
  rw [(moves_others moves other).2.1]
  exact before

/-- In every run where no VM is called "1", and for every actor that waits for the signal of its target: it
can be released, by some order of the steps to come, exactly if it is not one of a set of hosts
each of which waits for another of them or for a host whose listener is closed. -/
theorem released_iff {events : List NetworkEvent} {host : String} {contact : Nat}
    (unnamed : ∀ host, site.registered host "1" = false)
    (reached : Runs.run (networkStep site) (emptyNetwork Bytes) events = some n)
    (blocked : n.phase host = .signalling contact) :
    (∃ more final, Runs.run (networkStep site) n more = some final ∧ final.phase host = .waiting) ↔
      ¬ ∃ hosts, host ∈ hosts ∧ Stuck site n hosts := by
  have order := run_inOrder unnamed reached
  have inside : host ∈ site.hosts := by
    by_contra outside
    cases (run_outside outside reached).symm.trans blocked
  constructor
  · rintro ⟨more, final, later, waiting⟩ ⟨hosts, member, stuck⟩
    have kept : InOrder site final ∧ Stuck site final hosts := Runs.run_invariant
      (fun state => InOrder site state ∧ Stuck site state hosts)
      (fun _ _ _ before taken => ⟨before.1.step unnamed taken, before.2.step before.1 unnamed taken⟩)
      ⟨order, stuck⟩ later
    obtain ⟨_, ⟨k, _, still, _⟩, _⟩ := kept.2 host member
    cases waiting.symm.trans still
  · intro loose
    obtain ⟨_, ip, contacted, link⟩ := order.signalling host contact blocked
    by_cases answered : ∃ reply, n.sockets.links (host, contact) = .answered reply
    · obtain ⟨reply, is⟩ := answered
      obtain ⟨final, taken, waiting, _⟩ := takes_signal order inside blocked is
      refine ⟨[.signalled host], final, ?_, waiting⟩
      rw [Runs.run_cons,taken]
      rfl
    · have here : Blocked n host ip := ⟨contact, _, blocked, contacted, fun reply is => answered ⟨reply, is⟩⟩
      have opened : ¬ Closed site n ip := by
        intro closed
        refine loose ⟨{host}, rfl, fun other member => ⟨ip, ?_, .inr closed⟩⟩
        rw [Set.mem_singleton_iff.mp member]
        exact here
      -- Without an end of the chain, the hosts on it are stuck.
      obtain ⟨k, leads⟩ : ∃ k, Leads site n k ip := by
        by_contra endless
        refine loose ⟨{other | ∃ target, Blocked n other target ∧ ¬ ∃ k, Leads site n k target},
          ⟨ip, here, endless⟩, fun other ⟨target, waits, no_end⟩ => ⟨target, waits, ?_⟩⟩
        by_cases closed : Closed site n target
        · exact .inr closed
        · refine .inl ?_
          by_contra unblocked
          refine no_end ⟨0, .free target closed fun next_target on_it => unblocked ⟨next_target, on_it, ?_⟩⟩
          rintro ⟨k, leads⟩
          exact no_end ⟨k + 1, .waits target next_target k closed on_it leads⟩
      obtain ⟨events, mid, before, ready⟩ := leads.ready order unnamed
      have knocking := order.untouched ip opened (host, contact) _ contacted
      obtain ⟨more, final, later, waiting, _⟩ := release order unnamed inside ⟨knocking, contacted⟩ before ready
      exact ⟨more, final, later, waiting⟩

/-- Two hosts teleport to each other at the same time: both hang for ever. -/
theorem mutual_teleports_hang : ∃ n, Runs.run (networkStep twoHosts) (emptyNetwork Plain)
      [.request "10.0.0.1" "vm1" "10.0.0.2", .request "10.0.0.2" "vm2" "10.0.0.1"] = some n ∧
    ¬ ∃ more final, Runs.run (networkStep twoHosts) n more = some final ∧ final.phase "10.0.0.1" = .waiting := by
  have unnamed : ∀ host, twoHosts.registered host "1" = false := fun _ => rfl
  obtain ⟨n, reached, first, second, to_second, to_first, unsignalled⟩ : ∃ n,
      Runs.run (networkStep twoHosts) (emptyNetwork Plain)
        [.request "10.0.0.1" "vm1" "10.0.0.2", .request "10.0.0.2" "vm2" "10.0.0.1"] = some n ∧
      n.phase "10.0.0.1" = .signalling 0 ∧ n.phase "10.0.0.2" = .signalling 0 ∧
      Contacts n ("10.0.0.1", 0) "10.0.0.2" "vm1" ∧ Contacts n ("10.0.0.2", 0) "10.0.0.1" "vm2" ∧
      n.sockets.links ("10.0.0.1", 0) = .asked "10.0.0.2" (.text "1") ∧
      n.sockets.links ("10.0.0.2", 0) = .asked "10.0.0.1" (.text "1") := ⟨_, rfl, rfl, rfl, rfl, rfl, rfl, rfl⟩
  refine ⟨n, reached, fun released => (released_iff unnamed reached first).mp released
    ⟨{"10.0.0.1", "10.0.0.2"}, by simp, fun host member => ?_⟩⟩
  rcases member with rfl | rfl
  · refine ⟨"10.0.0.2", ⟨0, "vm1", first, to_second, fun reply => ?_⟩, .inl (by simp)⟩
    rw [unsignalled.1]
    simp
  · refine ⟨"10.0.0.1", ⟨0, "vm2", second, to_first, fun reply => ?_⟩, .inl (by simp)⟩
    rw [unsignalled.2]
    simp

end Hpvc.Executer
