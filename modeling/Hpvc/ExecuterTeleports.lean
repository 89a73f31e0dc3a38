import Hpvc.ExecuterActor

/-! Which request a teleport belongs to. Only a request that cannot be resolved leaves
the actor's strings and its socket at odds; every other event keeps them as they are. -/
namespace Hpvc.Executer

theorem findMetadata_cons (entry : VMMetadata × Nat) (rest : List (VMMetadata × Nat))
    (vmName : String) (found : Option (Nat × VMMetadata)) :
    (entry :: rest).foldl (fun found entry =>
      if entry.1.name = some vmName then some (entry.2, entry.1) else found) found =
    rest.foldl (fun found entry => if entry.1.name = some vmName then some (entry.2, entry.1) else found)
      (if entry.1.name = some vmName then some (entry.2, entry.1) else found) := rfl

/-- A VM is found when there is a record with its name. -/
theorem findMetadata_isSome (metadatas : List VMMetadata) (vmName : String) :
    (findMetadata metadatas vmName).isSome ↔ ∃ md ∈ metadatas, md.name = some vmName := by
  have scan (l : List (VMMetadata × Nat)) (found : Option (Nat × VMMetadata)) :
      (l.foldl (fun found entry => if entry.1.name = some vmName then some (entry.2, entry.1) else found)
        found).isSome ↔ found.isSome ∨ ∃ entry ∈ l, entry.1.name = some vmName := by
    induction l generalizing found with
    | nil => simp
    | cons entry rest ih =>
      rw [findMetadata_cons,ih]
      by_cases same : entry.1.name = some vmName <;> simp [same]
  rw [findMetadata,scan]
  constructor
  · rintro (none | ⟨entry, member, same⟩)
    · simp at none
    · exact ⟨entry.1, (List.mem_zipIdx' member).2 ▸ List.getElem_mem _, same⟩
  · rintro ⟨md, member, same⟩
    obtain ⟨i, bound, is⟩ := List.getElem_of_mem member
    exact .inr ⟨(md, i), List.mem_zipIdx_iff_getElem?.mpr (by simp [is,bound]), same⟩

/-- The two things a request can do. -/
theorem request_cases {hostIp : String} {s next : State} {vmName target : String}
    (taken : step hostIp s (.request vmName target) = some next) :
    next.metadatas = s.metadatas ∧ next.teleports = s.teleports ∧ next.vmName = vmName ∧
    ((resolve s.metadatas vmName target = none ∧ next.targetIp = target ∧ next.sender = s.sender ∧
        next.contacts = s.contacts) ∨
      ∃ ip, resolve s.metadatas vmName target = some ip ∧ next.targetIp = ip ∧
        next.sender = some s.contacts.length ∧ next.contacts = s.contacts ++ [(ip, vmName)]) := by
  simp only [step] at taken
  split at taken
  · contradiction
  · unfold handleRequest at taken
    split at taken
    next unresolved =>
      cases taken
      exact ⟨rfl, rfl, rfl, .inl ⟨unresolved, rfl, rfl, rfl⟩⟩
    next ip resolved =>
      split at taken
      · contradiction
      · cases taken
        exact ⟨rfl, rfl, rfl, .inr ⟨ip, resolved, rfl, rfl, rfl⟩⟩

theorem recorded_cases {hostIp : String} {s next : State} {md : VMMetadata}
    (taken : step hostIp s (.recorded md) = some next) :
    next = { s with metadatas := s.metadatas ++ [md] } := by
  simp only [step] at taken
  split at taken
  · contradiction
  · exact (Option.some.inj taken).symm

/-- A reply that is taken comes to the polling actor, and is the first of its contact. -/
theorem reply_taken {hostIp : String} {s next : State} {contact session : Nat} {text : String}
    {completed : Bool} (taken : step hostIp s (.reply contact text session completed) = some next) :
    (s.mode = .polling ∧ contact ∉ s.answered) ∧ next = if s.sender = some contact then
        if saysReady text then teleport hostIp { s with answered := contact :: s.answered } contact session completed
        else { s with answered := contact :: s.answered }
      else { s with mode := .receiving } := by
  simp only [step] at taken
  split at taken
  · contradiction
  next waiting =>
    simp only [not_or,not_not] at waiting
    refine ⟨⟨waiting.1, waiting.2.2⟩, ?_⟩
    split at taken
    next current =>
      rw [if_pos current]
      exact (Option.some.inj taken).symm
    next other =>
      rw [if_neg other]
      exact (Option.some.inj taken).symm

/-- The three things a reply can do: a teleport, nothing, or lead the actor to the pipe. -/
theorem reply_cases {hostIp : String} {s next : State} {contact session : Nat} {text : String}
    {completed : Bool} (taken : step hostIp s (.reply contact text session completed) = some next) :
    (Handled s contact text ∧
        next = teleport hostIp { s with answered := contact :: s.answered } contact session completed) ∨
      next = { s with answered := contact :: s.answered } ∨ next = { s with mode := .receiving } := by
  obtain ⟨⟨polling, fresh⟩, rfl⟩ := reply_taken taken
  split
  next current =>
    split
    next ready => exact .inl ⟨⟨polling, current, fresh, ready⟩, rfl⟩
    next => exact .inr (.inl rfl)
  next => exact .inr (.inr rfl)

/-- A ready reply of the sender that comes through is handled. -/
theorem taken_handled {hostIp : String} {s next : State} {contact session : Nat} {text : String}
    {completed : Bool} (current : s.sender = some contact) (ready : saysReady text = true)
    (taken : step hostIp s (.reply contact text session completed) = some next) :
    Handled s contact text := by
  obtain ⟨⟨polling, fresh⟩, _⟩ := reply_taken taken
  exact ⟨polling, current, fresh, ready⟩

/-- A ready reply is only ever answered by a teleport. -/
theorem handled_teleports {hostIp : String} {s next : State} {contact session : Nat} {text : String}
    {completed : Bool} (handled : Handled s contact text)
    (taken : step hostIp s (.reply contact text session completed) = some next) :
    next = teleport hostIp { s with answered := contact :: s.answered } contact session completed := by
  obtain ⟨_, rfl⟩ := reply_taken taken
  rw [if_pos handled.2.1,if_pos handled.2.2.2]

/-- What no event but a request changes; records keep their names. -/
structure Kept (s next : State) : Prop where
  vmName : next.vmName = s.vmName
  targetIp : next.targetIp = s.targetIp
  sender : next.sender = s.sender
  contacts : next.contacts = s.contacts
  names : ∀ md ∈ s.metadatas, ∃ other ∈ next.metadatas, other.name = md.name

theorem teleport_kept (hostIp : String) (s : State) (contact session : Nat) (completed : Bool) :
    Kept s (teleport hostIp s contact session completed) := by
  unfold teleport
  split
  next i _ _ =>
    cases completed
    · exact ⟨rfl, rfl, rfl, rfl, fun md member => ⟨md, member, rfl⟩⟩
    · refine ⟨rfl, rfl, rfl, rfl, fun md member => ?_⟩
      obtain ⟨k, bound, is⟩ := List.getElem_of_mem member
      have still : k < (s.metadatas.modify i fun md => { md with state := .teleported }).length := by
        simpa using bound
      refine ⟨_, List.getElem_mem still, ?_⟩
      rw [List.getElem_modify]
      split <;> simp [is]
  next =>
    cases completed
    all_goals exact ⟨rfl, rfl, rfl, rfl, fun md member => ⟨md, List.mem_append_left _ member, rfl⟩⟩

theorem other_kept {hostIp : String} {s next : State} {event : Event}
    (other : event.isRequest = false) (taken : step hostIp s event = some next) : Kept s next := by
  cases event with
  | request _ _ => contradiction
  | recorded md =>
    cases recorded_cases taken
    exact ⟨rfl, rfl, rfl, rfl, fun md member => ⟨md, List.mem_append_left _ member, rfl⟩⟩
  | reply contact text session completed =>
    rcases reply_cases taken with ⟨_, rfl⟩ | rfl | rfl
    · obtain ⟨vmName, targetIp, sender, contacts, names⟩ := teleport_kept hostIp
        { s with answered := contact :: s.answered } contact session completed
      exact ⟨vmName, targetIp, sender, contacts, names⟩
    · exact ⟨rfl, rfl, rfl, rfl, fun md member => ⟨md, member, rfl⟩⟩
    · exact ⟨rfl, rfl, rfl, rfl, fun md member => ⟨md, member, rfl⟩⟩

theorem event_request (event : Event) :
    (∃ vmName target, event = .request vmName target) ∨ event.isRequest = false := by
  cases event with
  | request vmName target => exact .inl ⟨vmName, target, rfl⟩
  | reply _ _ _ _ => exact .inr rfl
  | recorded _ => exact .inr rfl

/-- The sender is the newest contact. A VM sent to an address spelled "home" has a record. -/
structure Wired (s : State) : Prop where
  sender : ∀ k, s.sender = some k → k + 1 = s.contacts.length
  connected : s.contacts ≠ [] → s.sender ≠ none
  recorded : ∀ vmName, ("home", vmName) ∈ s.contacts → ∃ md ∈ s.metadatas, md.name = some vmName

theorem start_wired (metadatas : List VMMetadata) (vmName targetIp : String) :
    Wired (start metadatas vmName targetIp) := by
  constructor <;> simp [start]

theorem resolve_home {metadatas : List VMMetadata} {vmName target : String} :
    (resolve metadatas vmName target).isSome ↔
      (target = "home" → ∃ md ∈ metadatas, md.name = some vmName) := by
  unfold resolve
  split
  next home => simp [home,findMetadata_isSome]
  next away => simp [away]

theorem step_wired {hostIp : String} {s next : State} {event : Event} (wired : Wired s)
    (taken : step hostIp s event = some next) : Wired next := by
  rcases event_request event with ⟨vmName, target, rfl⟩ | other
  · obtain ⟨records, _, _, ⟨_, _, sender, contacts⟩ | ⟨ip, resolved, _, sender, contacts⟩⟩ :=
      request_cases taken
    · exact ⟨by rw [sender,contacts]; exact wired.sender,
        by rw [sender,contacts]; exact wired.connected,
        by rw [records,contacts]; exact wired.recorded⟩
    · refine ⟨fun k is => ?_, fun _ => by simp [sender], fun vm member => ?_⟩
      · rw [sender] at is
        cases is
        simp [contacts]
      · rw [contacts] at member
        rw [records]
        rcases List.mem_append.mp member with old | new
        · exact wired.recorded vm old
        · cases List.mem_singleton.mp new
          have some_ip : (resolve s.metadatas vmName target).isSome := by simp [resolved]
          apply resolve_home.mp some_ip
          by_contra away
          simp only [resolve,away,if_false,Option.some.injEq] at resolved
  · have kept := other_kept other taken
    refine ⟨by rw [kept.sender,kept.contacts]; exact wired.sender,
      by rw [kept.sender,kept.contacts]; exact wired.connected, fun vm member => ?_⟩
    rw [kept.contacts] at member
    obtain ⟨md, present, same⟩ := wired.recorded vm member
    obtain ⟨other, still, named⟩ := kept.names md present
    exact ⟨other, still, named.trans same⟩

theorem run_wired {hostIp : String} {s final : State} {events : List Event} (wired : Wired s)
    (h : Runs.run (step hostIp) s events = some final) : Wired final :=
  Runs.run_invariant Wired (fun _ _ _ good taken => step_wired good taken) wired h

/-- The actor's strings are those of its newest contact. -/
def Agreeing (s : State) : Prop := s.contacts.getLast? = some (s.targetIp, s.vmName)

/-- A request leaves the strings and the contact agreeing if it has an address. -/
theorem request_agreeing {hostIp : String} {s next : State} {vmName target : String}
    (wired : Wired s) (taken : step hostIp s (.request vmName target) = some next) :
    Agreeing next ↔ (resolve s.metadatas vmName target).isSome := by
  obtain ⟨_, _, name, ⟨unresolved, address, _, contacts⟩ | ⟨ip, resolved, address, _, contacts⟩⟩ :=
    request_cases taken
  · apply iff_of_false
    · intro agreeing
      rw [Agreeing,contacts,address,name] at agreeing
      have recorded : target = "home" → ∃ md ∈ s.metadatas, md.name = some vmName := by
        rintro rfl
        exact wired.recorded vmName (List.mem_of_getLast? agreeing)
      simpa [unresolved] using resolve_home.mpr recorded
    · simp [unresolved]
  · apply iff_of_true
    · simp [Agreeing,contacts,address,name]
    · simp [resolved]

theorem lastResolved_request {hostIp : String} {s mid : State} {past : List Event}
    {vmName target : String} (before : Runs.run (step hostIp) s past = some mid) :
    LastResolved hostIp s (past ++ [.request vmName target]) ↔
      (resolve mid.metadatas vmName target).isSome := by
  constructor
  · intro last
    exact last past vmName target [] mid rfl (by simp) before
  · intro resolved first name address after found split none_after reached
    rcases Runs.snoc_split.mp split with ⟨rfl, same, rfl⟩ | ⟨rest, _, rfl⟩
    · cases same
      exact Option.some.inj (before.symm.trans reached) ▸ resolved
    · have := none_after (.request vmName target) (by simp)
      simp [Event.isRequest] at this

theorem lastResolved_other {hostIp : String} {s : State} {past : List Event} {event : Event}
    (other : event.isRequest = false) :
    LastResolved hostIp s (past ++ [event]) ↔ LastResolved hostIp s past := by
  constructor
  · intro last first name address after found split none_after reached
    refine last first name address (after ++ [event]) found (by simp [split]) (fun e member => ?_) reached
    rcases List.mem_append.mp member with old | new
    · exact none_after e old
    · exact List.mem_singleton.mp new ▸ other
  · intro last first name address after found split none_after reached
    rcases Runs.snoc_split.mp split with ⟨_, rfl, _⟩ | ⟨rest, same, rfl⟩
    · contradiction
    · exact last first name address rest found same
        (fun e member => none_after e (List.mem_append_left _ member)) reached

/-- Once a target was contacted, the strings agree with the newest contact exactly if
the most recent request had an address. -/
theorem run_agreeing {hostIp : String} {s final : State} {events : List Event} (wired : Wired s)
    (fresh : s.contacts = []) (h : Runs.run (step hostIp) s events = some final)
    (contacted : final.contacts ≠ []) : Agreeing final ↔ LastResolved hostIp s events := by
  refine Runs.run_history (fun past mid => mid.contacts ≠ [] → (Agreeing mid ↔ LastResolved hostIp s past))
    (fun none => absurd fresh none) (fun past mid event next before ih taken some_contact => ?_) h contacted
  rcases event_request event with ⟨vmName, target, rfl⟩ | other
  · rw [request_agreeing (run_wired wired before) taken,lastResolved_request before]
  · have kept := other_kept other taken
    rw [kept.contacts] at some_contact
    rw [lastResolved_other other,← ih some_contact,Agreeing,Agreeing,kept.contacts,kept.targetIp,
      kept.vmName]

/-- The contacts of a run are those its requests made. -/
theorem contactedFor_iff {hostIp : String} {s final : State} {events : List Event}
    (fresh : s.contacts = []) (h : Runs.run (step hostIp) s events = some final)
    {k : Nat} {vmName ip : String} :
    ContactedFor hostIp s events k vmName ip ↔ final.contacts[k]? = some (ip, vmName) := by
  refine Runs.run_history (fun past mid => ContactedFor hostIp s past k vmName ip ↔
    mid.contacts[k]? = some (ip, vmName)) ?_ (fun past mid event next before ih taken => ?_) h
  · simp [ContactedFor,fresh]
  · have grown : ContactedFor hostIp s (past ++ [event]) k vmName ip ↔
        ContactedFor hostIp s past k vmName ip ∨ ∃ target, event = .request vmName target ∧
          mid.contacts.length = k ∧ resolve mid.metadatas vmName target = some ip := by
      constructor
      · rintro ⟨first, target, after, found, split, reached, number, resolved⟩
        rcases Runs.snoc_split.mp split with ⟨rfl, same, _⟩ | ⟨rest, same, _⟩
        · cases Option.some.inj (before.symm.trans reached)
          exact .inr ⟨target, same, number, resolved⟩
        · exact .inl ⟨first, target, rest, found, same, reached, number, resolved⟩
      · rintro (⟨first, target, after, found, split, reached⟩ | ⟨target, rfl, number, resolved⟩)
        · exact ⟨first, target, after ++ [event], found, by simp [split], reached⟩
        · exact ⟨past, target, [], mid, rfl, before, number, resolved⟩
    rw [grown,ih]
    rcases event_request event with ⟨vm, address, rfl⟩ | other
    · obtain ⟨_, _, _, ⟨unresolved, _, _, contacts⟩ | ⟨found, resolved, _, _, contacts⟩⟩ :=
        request_cases taken
      · rw [contacts,or_iff_left]
        rintro ⟨target, same, _, resolved⟩
        cases same
        simp [unresolved] at resolved
      · rw [contacts,List.getElem?_append]
        split
        next old =>
          rw [or_iff_left]
          rintro ⟨_, _, number, _⟩
          omega
        next new =>
          rw [List.getElem?_eq_none (by omega),List.getElem?_singleton]
          constructor
          · rintro (none | ⟨target, same, number, is⟩)
            · contradiction
            · cases same
              cases resolved.symm.trans is
              simp [number]
          · intro is
            split at is
            next number =>
              cases is
              exact .inr ⟨address, rfl, by omega, resolved⟩
            next => contradiction
    · rw [(other_kept other taken).contacts,or_iff_left]
      rintro ⟨_, rfl, _⟩
      contradiction

/-- The one entry of the log that the teleport branch writes. -/
theorem teleport_logs (hostIp : String) (s : State) (contact session : Nat) (completed : Bool) :
    ∃ started, (teleport hostIp s contact session completed).teleports = s.teleports ++ [started] ∧
      started.vmName = s.vmName ∧ started.targetIp = s.targetIp ∧ started.contact = contact := by
  unfold teleport
  split
  · cases completed <;> exact ⟨_, rfl, rfl, rfl, rfl⟩
  · cases completed <;> exact ⟨_, rfl, rfl, rfl, rfl⟩

/-- A teleport starts in answer to a ready reply, with the strings as they are then. -/
theorem teleport_started {hostIp : String} {s next : State} {event : Event} {started : Teleport}
    (taken : step hostIp s event = some next) (new : next.teleports = s.teleports ++ [started]) :
    ∃ text session completed, event = .reply started.contact text session completed ∧
      Handled s started.contact text ∧ started.vmName = s.vmName ∧ started.targetIp = s.targetIp := by
  have nothing : next.teleports ≠ s.teleports := by rw [new]; simp
  cases event with
  | request vmName target => exact absurd (request_cases taken).2.1 nothing
  | recorded md =>
    cases recorded_cases taken
    exact absurd rfl nothing
  | reply contact text session completed =>
    rcases reply_cases taken with ⟨handled, rfl⟩ | rfl | rfl
    · obtain ⟨logged, log, vmName, targetIp, number⟩ := teleport_logs hostIp
        { s with answered := contact :: s.answered } contact session completed
      cases List.append_cancel_left (log.symm.trans new)
      subst number
      exact ⟨text, session, completed, rfl, handled, vmName, targetIp⟩
    · exact absurd rfl nothing
    · exact absurd rfl nothing

theorem handled_starts (hostIp : String) {s : State} {contact : Nat} {text : String} (wired : Wired s)
    (handled : Handled s contact text) (session : Nat) (completed : Bool) :
    ∃ next started, step hostIp s (.reply contact text session completed) = some next ∧
      next.teleports = s.teleports ++ [started] ∧ started.contact = contact ∧
      started.vmName = s.vmName ∧ started.targetIp = s.targetIp := by
  obtain ⟨polling, current, fresh, ready⟩ := handled
  have inside := wired.sender contact current
  have waiting : ¬ (s.mode ≠ .polling ∨ s.contacts.length ≤ contact ∨ contact ∈ s.answered) := by
    simp only [not_or,not_not,polling,fresh]
    exact ⟨trivial, by omega, not_false⟩
  obtain ⟨started, log, vmName, targetIp, number⟩ := teleport_logs hostIp
    { s with answered := contact :: s.answered } contact session completed
  refine ⟨_, started, ?_, log, number, vmName, targetIp⟩
  simp only [step,if_neg waiting,if_pos current,if_pos ready]

/-- In every run, the teleports are those that were asked for exactly if no ready reply
is answered after a request without an address. -/
theorem teleports_not_mixed_up (hostIp : String) (metadatas : List VMMetadata)
    (vmName targetIp : String) (events : List Event) :
    NotMixedUp hostIp (start metadatas vmName targetIp) events ↔
      RepliesInTime hostIp (start metadatas vmName targetIp) events := by
  have wired := start_wired metadatas vmName targetIp
  -- At a handled reply the newest contact is the one that replies.
  have agree (past : List Event) (mid : State) (contact : Nat) (text : String)
      (before : Runs.run (step hostIp) (start metadatas vmName targetIp) past = some mid)
      (handled : Handled mid contact text) :
      ContactedFor hostIp (start metadatas vmName targetIp) past contact mid.vmName mid.targetIp ↔
        LastResolved hostIp (start metadatas vmName targetIp) past := by
    have newest := (run_wired wired before).sender contact handled.2.1
    have contacted : mid.contacts ≠ [] := List.ne_nil_of_length_pos (by omega)
    rw [← run_agreeing wired rfl before contacted,contactedFor_iff rfl before,Agreeing,
      List.getLast?_eq_getElem?,← newest,Nat.add_sub_cancel]
  constructor
  · intro matching past contact text session completed rest mid split before handled
    obtain ⟨next, started, taken, log, number, vm, address⟩ :=
      handled_starts hostIp (run_wired wired before) handled session completed
    have request := matching past _ rest mid next started split before taken log
    rw [number,vm,address] at request
    exact (agree past mid contact text before handled).mp request
  · intro timely past event rest mid next started split before taken log
    obtain ⟨text, session, completed, rfl, handled, vm, address⟩ := teleport_started taken log
    rw [vm,address]
    exact (agree past mid _ text before handled).mpr
      (timely past _ text session completed rest mid split before handled)

/-- A target is contacted for vm1, then vm2 is asked to go home and has no record. The
target's reply starts a teleport of vm2 to the address "home". -/
def vm2HasNoHome : List Event :=
  [.request "vm1" "10.0.0.2", .request "vm2" "home", .reply 0 "2" 7 true]

theorem teleports_mixed_up :
    (Runs.run (step "10.0.0.1") (start [] "" "") vm2HasNoHome).map (·.teleports) =
      some [⟨0, "vm2", "home", 7⟩] ∧
    ¬ NotMixedUp "10.0.0.1" (start [] "" "") vm2HasNoHome := by
  refine ⟨by decide, fun matching => ?_⟩
  obtain ⟨mid, before⟩ : ∃ mid, Runs.run (step "10.0.0.1") (start [] "" "")
      [.request "vm1" "10.0.0.2", .request "vm2" "home"] = some mid := ⟨_, rfl⟩
  have request := matching _ _ [] mid _ ⟨0, "vm2", "home", 7⟩ rfl before (by cases before; rfl)
    (by cases before; rfl)
  rw [contactedFor_iff rfl before] at request
  cases before
  revert request
  decide

end Hpvc.Executer
