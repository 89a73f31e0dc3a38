import Hpvc.ExecuterTeleports

/-! The executer of one host: the main thread starts VMs, and the actor takes VMs in at
its listener and teleports others away. All three keep the VMs they started in `metadatas`. -/
namespace Hpvc.Executer

/-- `opened` is the number of sessions the hypervisor has handed out; each is a new one. -/
structure Host where
  actor : State
  opened : Nat

def emptyHost : Host := ⟨start [] "" "", 0⟩

/-- A START message, the end of an incoming teleport, and what happens at the source of one. -/
inductive HostEvent where
  | start (vmName : String)
  | arrive (vmName : String) (md : TeleportMetadata)
  | request (vmName targetIp : String)
  | reply (contact : Nat) (text : String) (completed : Bool)

/-- The record for a VM that is started for its teleport. The state is not mentioned in the source's
initialisers, so it is the first of its enumeration. -/
def startMetadata (hostIp vmName : String) (session : Nat) : VMMetadata :=
  ⟨some vmName, hostIp, [hostIp], session, .up, false⟩

/-- The record for a VM that a START message starts. The main thread frees the name that it has just stored. -/
def messageMetadata (hostIp : String) (session : Nat) : VMMetadata :=
  ⟨none, hostIp, [hostIp], session, .up, false⟩

/-- The record for a VM that comes from another host. -/
def guestMetadata (hostIp vmName : String) (session : Nat) (md : TeleportMetadata) : VMMetadata :=
  ⟨some vmName, md.home, md.history ++ [hostIp], session, .up, true⟩

/-- The actor's view of an event. The session is only used where one is opened. -/
def HostEvent.toEvent (hostIp : String) (session : Nat) : HostEvent → Event
  | .start _ => .recorded (messageMetadata hostIp session)
  | .arrive vmName md => .recorded (guestMetadata hostIp vmName session md)
  | .request vmName targetIp => .request vmName targetIp
  | .reply contact text completed => .reply contact text session completed

/-- The listener is read by the actor itself, which must be waiting for its sockets. -/
def HostEvent.ready (s : State) : HostEvent → Bool
  | .arrive _ _ => s.mode = .polling
  | _ => true

def hostStep (hostIp : String) (host : Host) (event : HostEvent) : Option Host :=
  if event.ready host.actor then
    (step hostIp host.actor (event.toEvent hostIp host.opened)).map fun actor => ⟨actor, host.opened + 1⟩
  else none

def Host.exited (host : Host) : Host := { host with actor := { host.actor with mode := .exited } }

/-- The loop over `md->history` at the end of an incoming teleport. Where `realloc` has moved the array to make
room for one more host, the loop reads what has been freed, and the executer crashes. -/
def Host.printHistory (moved : Bool) (host : Host) : Host := if moved then host.exited else host

@[simp] theorem printHistory_metadatas (moved : Bool) (host : Host) :
    (host.printHistory moved).actor.metadatas = host.actor.metadatas := by
  cases moved <;> rfl

@[simp] theorem printHistory_contacts (moved : Bool) (host : Host) :
    (host.printHistory moved).actor.contacts = host.actor.contacts := by
  cases moved <;> rfl

@[simp] theorem printHistory_sent (moved : Bool) (host : Host) :
    (host.printHistory moved).actor.sent = host.actor.sent := by
  cases moved <;> rfl

theorem hostStep_some {hostIp : String} {host next : Host} {event : HostEvent} :
    hostStep hostIp host event = some next ↔
      event.ready host.actor ∧ next.opened = host.opened + 1 ∧
        step hostIp host.actor (event.toEvent hostIp host.opened) = some next.actor := by
  unfold hostStep
  constructor
  · intro taken
    split at taken
    next ready =>
      obtain ⟨actor, same, rfl⟩ := Option.map_eq_some_iff.mp taken
      exact ⟨ready, rfl, same⟩
    next => contradiction
  · rintro ⟨ready, opened, taken⟩
    rw [if_pos ready,taken,Option.map_some,← opened]

/-- A lookup in a list that has grown by one record. -/
theorem findMetadata_snoc (metadatas : List VMMetadata) (md : VMMetadata) (vmName : String) :
    findMetadata (metadatas ++ [md]) vmName =
      if md.name = some vmName then some (metadatas.length, md) else findMetadata metadatas vmName := by
  simp [findMetadata,List.zipIdx_append,List.foldl_append]

/-- A lookup returns the last record with the name. -/
theorem findMetadata_eq_some {metadatas : List VMMetadata} {vmName : String} {i : Nat}
    {md : VMMetadata} :
    findMetadata metadatas vmName = some (i, md) ↔
      metadatas[i]? = some md ∧ md.name = some vmName ∧
        ∀ j other, metadatas[j]? = some other → other.name = some vmName → j ≤ i := by
  induction metadatas using List.reverseRecOn with
  | nil => simp [findMetadata]
  | append_singleton metadatas last ih =>
    rw [findMetadata_snoc]
    split
    next same =>
      constructor
      · rintro ⟨⟩
        refine ⟨by simp, same, fun j other at_j _ => ?_⟩
        have bound := (List.getElem?_eq_some_iff.mp at_j).1
        simp only [List.length_append,List.length_singleton] at bound
        omega
      · rintro ⟨at_i, _, newest⟩
        have bound := (List.getElem?_eq_some_iff.mp at_i).1
        have after := newest metadatas.length last (by simp) same
        simp only [List.length_append,List.length_singleton] at bound
        have is : i = metadatas.length := by omega
        subst is
        simpa using at_i
    next differs =>
      have skips (j : Nat) (other : VMMetadata) (same : other.name = some vmName) :
          (metadatas ++ [last])[j]? = some other ↔ metadatas[j]? = some other := by
        rcases Nat.lt_trichotomy j metadatas.length with old | rfl | beyond
        · rw [List.getElem?_append_left old]
        · rw [List.getElem?_concat_length,List.getElem?_eq_none (Nat.le_refl _)]
          constructor
          · rintro ⟨⟩
            contradiction
          · intro none
            contradiction
        · have outside : (metadatas ++ [last]).length ≤ j := by
            rw [List.length_append,List.length_singleton]
            omega
          rw [List.getElem?_eq_none outside,List.getElem?_eq_none (by omega)]
      rw [ih]
      constructor
      · rintro ⟨at_i, same, newest⟩
        exact ⟨(skips i md same).mpr at_i, same, fun j other at_j named =>
          newest j other ((skips j other named).mp at_j) named⟩
      · rintro ⟨at_i, same, newest⟩
        exact ⟨(skips i md same).mp at_i, same, fun j other at_j named =>
          newest j other ((skips j other named).mpr at_j) named⟩

theorem findMetadata_eq_none {metadatas : List VMMetadata} {vmName : String} :
    findMetadata metadatas vmName = none ↔ ∀ md ∈ metadatas, md.name ≠ some vmName := by
  rw [← Option.not_isSome_iff_eq_none,findMetadata_isSome]
  simp

/-- Marking one record as teleported. -/
def markTeleported (metadatas : List VMMetadata) (i : Nat) : List VMMetadata :=
  metadatas.modify i fun md => { md with state := .teleported }

/-- What the teleport branch does to the log and the records, as the lookup goes. -/
theorem teleport_cases (hostIp : String) (s : State) (contact session : Nat) (completed : Bool) :
    (∃ i md, findMetadata s.metadatas s.vmName = some (i, md) ∧
      (teleport hostIp s contact session completed).teleports =
        s.teleports ++ [⟨contact, s.vmName, s.targetIp, md.session⟩] ∧
      (teleport hostIp s contact session completed).metadatas =
        if completed then markTeleported s.metadatas i else s.metadatas) ∨
    (findMetadata s.metadatas s.vmName = none ∧
      (teleport hostIp s contact session completed).teleports =
        s.teleports ++ [⟨contact, s.vmName, s.targetIp, session⟩] ∧
      (teleport hostIp s contact session completed).metadatas =
        s.metadatas ++ [startMetadata hostIp s.vmName session]) := by
  unfold teleport
  split
  next i md found =>
    left
    refine ⟨i, md, found, ?_, ?_⟩
    · cases completed <;> rfl
    · cases completed <;> rfl
  next nothing =>
    right
    refine ⟨nothing, ?_, ?_⟩
    · cases completed <;> rfl
    · cases completed <;> rfl

end Hpvc.Executer
