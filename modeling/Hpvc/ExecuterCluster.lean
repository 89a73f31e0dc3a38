import Hpvc.ExecuterHost

/-! The executers of all hosts, with teleports handled one at a time, and the journey of one
VM among them. A host keeps its records when a VM leaves, so a VM that comes back
has several there. -/
namespace Hpvc.Executer

/-- A host's address is its name. -/
def emptyCluster : String → Host := fun _ => emptyHost

/-- With a teleport comes whether `realloc` moves the history at its target. -/
inductive ClusterEvent where
  | start (hostIp vmName : String)
  | teleport (hostIp vmName target : String) (moved : Bool)

def ClusterEvent.vmName : ClusterEvent → String
  | .start _ vmName => vmName
  | .teleport _ vmName _ _ => vmName

/-- A teleport from the request to the end on both sides: the target that is contacted
says "2" and gets the frame that is then sent on the same socket. -/
def clusterStep (hosts : List String) (cluster : String → Host) :
    ClusterEvent → Option (String → Host)
  | .start hostIp vmName =>
    if hostIp ∈ hosts then
      (hostStep hostIp (cluster hostIp) (.start vmName)).map (Function.update cluster hostIp)
    else none
  | .teleport hostIp vmName target moved =>
    let contact := (cluster hostIp).actor.contacts.length
    (hostStep hostIp (cluster hostIp) (.request vmName target)).bind fun asked =>
    asked.actor.contacts[contact]?.bind fun (ip, name) =>
    if hostIp ∈ hosts ∧ ip ∈ hosts ∧ ip ≠ hostIp then
      (hostStep hostIp asked (.reply contact "2" true)).bind fun left =>
      left.actor.sent[asked.actor.sent.length]?.bind fun (_, md) =>
      (hostStep ip (cluster ip) (.arrive name md)).map fun arrived =>
        Function.update (Function.update cluster hostIp left) ip (arrived.printHistory moved)
    else none

def records (cluster : String → Host) (hostIp : String) : List VMMetadata :=
  (cluster hostIp).actor.metadatas

/-- The journey of one VM: it is brought up once, by a start or by its first teleport, and
then goes from where it is to another host. The first host is its home. -/
def travel (vmName : String) (route : List String) : ClusterEvent → Option (List String)
  | .start hostIp name =>
    if name ≠ vmName then some route else if route = [] then some [hostIp] else none
  | .teleport hostIp name target _ =>
    if name ≠ vmName then some route
    else match route with
      | [] => if target = "home" ∨ target = hostIp then none else some [hostIp, target]
      | home :: rest =>
        let ip := if target = "home" then home else target
        if (home :: rest).getLast? = some hostIp ∧ ip ≠ hostIp then some (home :: rest ++ [ip]) else none

/-- The records of a host and the metadata sent, when a VM is teleported away. -/
def departure (hostIp vmName : String) (session : Nat) (metadatas : List VMMetadata) :
    List VMMetadata × TeleportMetadata :=
  match findMetadata metadatas vmName with
  | some (i, md) => (markTeleported metadatas i, ⟨md.home, md.history⟩)
  | none => (metadatas ++ [startMetadata hostIp vmName session], ⟨hostIp, [hostIp]⟩)

/-- A "2" from the sender, and a teleport that completes. -/
theorem reply_departure {hostIp : String} {s next : State} {contact session : Nat}
    (current : s.sender = some contact)
    (taken : step hostIp s (.reply contact "2" session true) = some next) :
    next.metadatas = (departure hostIp s.vmName session s.metadatas).1 ∧
      next.sent = s.sent ++ [(contact, (departure hostIp s.vmName session s.metadatas).2)] := by
  rw [handled_teleports (taken_handled current (by decide) taken) taken]
  cases found : findMetadata s.metadatas s.vmName with
  | some entry => simp [teleport,departure,found,markTeleported]
  | none => simp [teleport,departure,found,startMetadata]

/-- What a start does to the records. -/
theorem start_records {hosts : List String} {cluster next : String → Host} {hostIp vmName : String}
    (taken : clusterStep hosts cluster (.start hostIp vmName) = some next) :
    ∃ session, ∀ host, records next host =
      if host = hostIp then records cluster hostIp ++ [messageMetadata hostIp session]
      else records cluster host := by
  simp only [clusterStep] at taken
  split at taken
  · obtain ⟨started, moved, rfl⟩ := Option.map_eq_some_iff.mp taken
    have is := recorded_cases (hostStep_some.mp moved).2.2
    refine ⟨(cluster hostIp).opened, fun host => ?_⟩
    by_cases here : host = hostIp
    · subst here
      simp only [records,Function.update_self,is,if_true]
    · simp only [records,Function.update_of_ne here,if_neg here]
  · contradiction

/-- What a teleport does to the records of the two hosts. -/
structure Moved (cluster next : String → Host) (hostIp vmName ip : String) (md : TeleportMetadata) :
    Prop where
  source : ∃ session, departure hostIp vmName session (records cluster hostIp) = (records next hostIp, md)
  target : ∃ session, records next ip = records cluster ip ++ [guestMetadata ip vmName session md]
  others : ∀ host, host ≠ hostIp → host ≠ ip → records next host = records cluster host

theorem teleport_moved {hosts : List String} {cluster next : String → Host}
    {hostIp vmName target : String} {moves : Bool}
    (taken : clusterStep hosts cluster (.teleport hostIp vmName target moves) = some next) :
    ∃ ip md, resolve (records cluster hostIp) vmName target = some ip ∧ ip ≠ hostIp ∧
      Moved cluster next hostIp vmName ip md := by
  simp only [clusterStep] at taken
  obtain ⟨asked, requested, taken⟩ := Option.bind_eq_some_iff.mp taken
  obtain ⟨⟨ip, name⟩, contacted, taken⟩ := Option.bind_eq_some_iff.mp taken
  split at taken
  next inside =>
    obtain ⟨left, replied, taken⟩ := Option.bind_eq_some_iff.mp taken
    obtain ⟨⟨_, md⟩, frame, taken⟩ := Option.bind_eq_some_iff.mp taken
    obtain ⟨arrived, moved, rfl⟩ := Option.map_eq_some_iff.mp taken
    obtain ⟨same, _, vm, ⟨_, _, _, contacts⟩ | ⟨found, resolved, _, sender, contacts⟩⟩ :=
      request_cases (hostStep_some.mp requested).2.2
    · rw [contacts,List.getElem?_eq_none (Nat.le_refl _)] at contacted
      contradiction
    · rw [contacts,List.getElem?_concat_length] at contacted
      cases contacted
      obtain ⟨marked, sent⟩ := reply_departure sender (hostStep_some.mp replied).2.2
      rw [vm,same] at marked sent
      rw [sent,List.getElem?_concat_length] at frame
      have arrived_is := recorded_cases (hostStep_some.mp moved).2.2
      refine ⟨ip, md, resolved, inside.2.2, ⟨asked.opened, ?_⟩, ⟨(cluster ip).opened, ?_⟩, ?_⟩
      · simp only [records,Function.update_of_ne inside.2.2.symm,Function.update_self,marked]
        cases frame
        rfl
      · rw [records,Function.update_self,printHistory_metadatas,arrived_is]
        rfl
      · intro host away elsewhere
        simp only [records,Function.update_of_ne elsewhere,Function.update_of_ne away]
  next => contradiction

end Hpvc.Executer
