import Hpvc.ExecuterHost

/-! Which sessions are teleported. A record stays in `metadatas` when its VM leaves, with
a session that has been released; the lookup goes by the name alone. -/
namespace Hpvc.Executer

/-- Every teleport ends with `ISession_Release`, or with the end of the executer. -/
def released (s : State) : List Nat := s.teleports.map (·.session)

/-- The VM comes in. The record of a START message has no name by which the VM could be found. -/
def HostEvent.brings (vmName : String) : HostEvent → Prop
  | .arrive name _ => name = vmName
  | _ => False

/-- The session a teleport of the VM would use, if there is a record. -/
def recordedSession (metadatas : List VMMetadata) (vmName : String) : Option Nat :=
  (findMetadata metadatas vmName).map (·.2.session)

/-- Sessions are all different, and those that were released are the ones of the VMs that
were teleported away. -/
structure SessionBook (away : String → Prop) (host : Host) : Prop where
  recorded : ∀ md ∈ host.actor.metadatas, md.session < host.opened
  logged : ∀ session ∈ released host.actor, session < host.opened
  distinct : (host.actor.metadatas.map (·.session)).Nodup
  marked : ∀ md ∈ host.actor.metadatas, md.state = .up ∨ md.session ∈ released host.actor
  gone : ∀ vmName, away vmName ↔
    ∃ session ∈ released host.actor, recordedSession host.actor.metadatas vmName = some session

theorem SessionBook.congr {away other : String → Prop} {host : Host} (book : SessionBook away host)
    (same : ∀ vmName, other vmName ↔ away vmName) : SessionBook other host :=
  ⟨book.recorded, book.logged, book.distinct, book.marked, fun vmName => (same vmName).trans (book.gone vmName)⟩

end Hpvc.Executer
