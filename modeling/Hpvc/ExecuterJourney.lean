import Hpvc.ExecuterCluster

/-! Where a VM's record says it comes from. Of all that the hosts keep, only the records with
the VM's name matter for it, and of those on a host only the last. The record of a START message
has lost its name. -/
namespace Hpvc.Executer

def vmRecords (vmName : String) (metadatas : List VMMetadata) : List VMMetadata :=
  metadatas.filter fun md => md.name = some vmName

/-- The records of all other VMs. -/
def othersThan (vmName : String) (metadatas : List VMMetadata) : List VMMetadata :=
  metadatas.filter fun md => md.name ≠ some vmName

theorem vmRecords_snoc (vmName : String) (metadatas : List VMMetadata) (md : VMMetadata) :
    vmRecords vmName (metadatas ++ [md]) =
      if md.name = some vmName then vmRecords vmName metadatas ++ [md] else vmRecords vmName metadatas := by
  unfold vmRecords
  split
  next same => simp [same]
  next differs => simp [differs]

/-- The lookup is for the last record of the VM. -/
theorem findMetadata_last (vmName : String) (metadatas : List VMMetadata) :
    (findMetadata metadatas vmName).map (·.2) = (vmRecords vmName metadatas).getLast? := by
  induction metadatas using List.reverseRecOn with
  | nil => rfl
  | append_singleton metadatas md ih =>
    rw [findMetadata_snoc,vmRecords_snoc]
    split
    · simp
    · exact ih

theorem resolve_last (vmName target : String) (metadatas : List VMMetadata) :
    resolve metadatas vmName target =
      if target = "home" then (vmRecords vmName metadatas).getLast?.map (·.home) else some target := by
  rw [← findMetadata_last,Option.map_map]
  rfl

/-- The record that a lookup finds, between those before it and those after it. -/
theorem findMetadata_split {metadatas : List VMMetadata} {vmName : String} {i : Nat} {md : VMMetadata}
    (found : findMetadata metadatas vmName = some (i, md)) :
    ∃ before after, metadatas = before ++ md :: after ∧ before.length = i ∧ md.name = some vmName ∧
      vmRecords vmName after = [] := by
  obtain ⟨at_i, named, newest⟩ := findMetadata_eq_some.mp found
  obtain ⟨bound, is⟩ := List.getElem?_eq_some_iff.mp at_i
  refine ⟨metadatas.take i, metadatas.drop (i + 1), ?_, by simp; omega, named, ?_⟩
  · rw [← is,← List.drop_eq_getElem_cons,List.take_append_drop]
  · apply List.filter_eq_nil_iff.mpr
    intro other member
    obtain ⟨j, at_j⟩ := List.mem_iff_getElem?.mp member
    rw [List.getElem?_drop] at at_j
    simp only [decide_eq_true_eq]
    intro same
    have := newest _ other at_j same
    omega

theorem vmRecords_middle {before after : List VMMetadata} {vmName : String} {md : VMMetadata}
    (named : md.name = some vmName) (none : vmRecords vmName after = []) :
    vmRecords vmName (before ++ md :: after) = vmRecords vmName before ++ [md] := by
  unfold vmRecords at *
  rw [List.filter_append,List.filter_cons_of_pos (by simpa using named),none]

theorem markTeleported_middle (before after : List VMMetadata) (md : VMMetadata) :
    markTeleported (before ++ md :: after) before.length =
      before ++ { md with state := .teleported } :: after := by
  unfold markTeleported
  induction before with
  | nil => rfl
  | cons first rest ih => rw [List.cons_append,List.length_cons,List.modify_succ_cons,ih,List.cons_append]

/-- What a departure does to the records of its VM. -/
theorem departure_vmRecords (hostIp vmName : String) (session : Nat) (metadatas : List VMMetadata) :
    (∃ older md, vmRecords vmName metadatas = older ++ [md] ∧
      vmRecords vmName (departure hostIp vmName session metadatas).1 =
        older ++ [{ md with state := .teleported }] ∧
      (departure hostIp vmName session metadatas).2 = ⟨md.home, md.history⟩) ∨
    (vmRecords vmName metadatas = [] ∧
      vmRecords vmName (departure hostIp vmName session metadatas).1 =
        [startMetadata hostIp vmName session] ∧
      (departure hostIp vmName session metadatas).2 = ⟨hostIp, [hostIp]⟩) := by
  unfold departure
  split
  next i md found =>
    obtain ⟨before, after, rfl, rfl, named, none⟩ := findMetadata_split found
    refine .inl ⟨vmRecords vmName before, md, vmRecords_middle named none, ?_, rfl⟩
    rw [markTeleported_middle]
    exact vmRecords_middle named none
  next found =>
    have missing : vmRecords vmName metadatas = [] := by
      rw [← List.getLast?_eq_none_iff,← findMetadata_last,found,Option.map_none]
    refine .inr ⟨missing, ?_, rfl⟩
    rw [vmRecords_snoc,missing]
    exact if_pos rfl

theorem departure_others (hostIp vmName : String) (session : Nat) (metadatas : List VMMetadata) :
    othersThan vmName (departure hostIp vmName session metadatas).1 = othersThan vmName metadatas := by
  unfold departure
  split
  next i md found =>
    obtain ⟨before, after, rfl, rfl, named, _⟩ := findMetadata_split found
    rw [markTeleported_middle]
    simp [othersThan,named]
  next => simp [othersThan,startMetadata]

/-- A teleport touches the records of its own VM only. -/
theorem teleport_others {hosts : List String} {cluster next : String → Host} {hostIp vmName target : String}
    {moves : Bool} (taken : clusterStep hosts cluster (.teleport hostIp vmName target moves) = some next)
    (host : String) : othersThan vmName (records next host) = othersThan vmName (records cluster host) := by
  obtain ⟨ip, md, _, away, moved⟩ := teleport_moved taken
  by_cases left : host = hostIp
  · subst left
    obtain ⟨session, is⟩ := moved.source
    have kept := departure_others host vmName session (records cluster host)
    rwa [is] at kept
  · by_cases arrived : host = ip
    · subst arrived
      obtain ⟨session, is⟩ := moved.target
      simp [is,othersThan,guestMetadata]
    · rw [moved.others host left arrived]

/-- What the records of one VM on each host are. -/
def trail (vmName : String) (cluster : String → Host) (hostIp : String) : List VMMetadata :=
  vmRecords vmName (records cluster hostIp)

/-- No lookup finds what a START message adds. -/
theorem start_trail {hosts : List String} {cluster next : String → Host} {hostIp name : String}
    (taken : clusterStep hosts cluster (.start hostIp name) = some next) (vmName : String) :
    trail vmName next = trail vmName cluster := by
  obtain ⟨session, grown⟩ := start_records taken
  funext host
  unfold trail
  rw [grown]
  split
  next here =>
    rw [vmRecords_snoc,here]
    exact if_neg (by simp [messageMetadata])
  next => rfl

theorem other_trail {hosts : List String} {cluster next : String → Host} {event : ClusterEvent}
    {vmName : String} (taken : clusterStep hosts cluster event = some next)
    (other : event.vmName ≠ vmName) : trail vmName next = trail vmName cluster := by
  cases event with
  | start hostIp name => exact start_trail taken vmName
  | teleport hostIp name target moves =>
    have apart : name ≠ vmName := other
    have through (metadatas : List VMMetadata) :
        vmRecords vmName metadatas = vmRecords vmName (othersThan name metadatas) := by
      unfold vmRecords othersThan
      rw [List.filter_filter]
      apply List.filter_congr
      intro md _
      by_cases same : md.name = some vmName
      · simp [same,apart.symm]
      · simp [same]
    funext host
    rw [trail,trail,through,teleport_others taken host,← through]

/-- A teleport of the VM: the last record where it was is marked, or one is made, and the
host it goes to gets a new one. -/
theorem teleport_trail {hosts : List String} {cluster next : String → Host}
    {hostIp vmName target : String} {moves : Bool}
    (taken : clusterStep hosts cluster (.teleport hostIp vmName target moves) = some next) :
    ∃ ip md session,
      (if target = "home" then (trail vmName cluster hostIp).getLast?.map (·.home) else some target) =
        some ip ∧ ip ≠ hostIp ∧
      ((∃ older last, trail vmName cluster hostIp = older ++ [last] ∧
          trail vmName next hostIp = older ++ [{ last with state := .teleported }] ∧
          md = ⟨last.home, last.history⟩) ∨
        (trail vmName cluster hostIp = [] ∧
          (∃ own, trail vmName next hostIp = [startMetadata hostIp vmName own]) ∧
          md = ⟨hostIp, [hostIp]⟩)) ∧
      trail vmName next ip = trail vmName cluster ip ++ [guestMetadata ip vmName session md] ∧
      ∀ host, host ≠ hostIp → host ≠ ip → trail vmName next host = trail vmName cluster host := by
  obtain ⟨ip, md, resolved, away, ⟨own, left⟩, ⟨session, arrived⟩, others⟩ := teleport_moved taken
  rw [resolve_last] at resolved
  refine ⟨ip, md, session, resolved, away, ?_, ?_, fun host off elsewhere => ?_⟩
  · have parts := departure_vmRecords hostIp vmName own (records cluster hostIp)
    rw [left] at parts
    rcases parts with marked | ⟨missing, made, sent⟩
    · exact .inl marked
    · exact .inr ⟨missing, ⟨own, made⟩, sent⟩
  · unfold trail
    rw [arrived,vmRecords_snoc]
    exact if_pos rfl
  · rw [trail,trail,others host off elsewhere]

theorem travel_other {vmName : String} {event : ClusterEvent} (other : event.vmName ≠ vmName)
    (route : List String) : travel vmName route event = some route := by
  cases event with
  | start hostIp name => exact if_pos other
  | teleport hostIp name target moves => exact if_pos other

theorem travel_start {vmName hostIp : String} {route onward : List String}
    (taken : travel vmName route (.start hostIp vmName) = some onward) :
    route = [] ∧ onward = [hostIp] := by
  simp only [travel,ne_eq,not_true,if_false] at taken
  split at taken
  next empty => exact ⟨empty, (Option.some.inj taken).symm⟩
  next => contradiction

theorem travel_teleport {vmName hostIp target : String} {moves : Bool} {route onward : List String}
    (taken : travel vmName route (.teleport hostIp vmName target moves) = some onward) :
    (route = [] ∧ target ≠ "home" ∧ target ≠ hostIp ∧ onward = [hostIp, target]) ∨
      ∃ home ip, route.head? = some home ∧ route.getLast? = some hostIp ∧
        ip = (if target = "home" then home else target) ∧ ip ≠ hostIp ∧ onward = route ++ [ip] := by
  dsimp only [travel] at taken
  rw [if_neg (not_not.mpr rfl)] at taken
  cases route with
  | nil =>
    dsimp only at taken
    split at taken
    · contradiction
    next fine =>
      simp only [not_or] at fine
      exact .inl ⟨rfl, fine.1, fine.2, (Option.some.inj taken).symm⟩
  | cons home rest =>
    dsimp only at taken
    by_cases here : (home :: rest).getLast? = some hostIp ∧
        (if target = "home" then home else target) ≠ hostIp
    · rw [if_pos here] at taken
      exact .inr ⟨home, _, rfl, here.1, rfl, here.2, (Option.some.inj taken).symm⟩
    · rw [if_neg here] at taken
      contradiction

/-- From its first teleport on, the last record of a VM on the host where it is tells its route. Before, there
is no record to be found. -/
def Traced (vmName : String) (route : List String) (cluster : String → Host) : Prop :=
  (route.length ≤ 1 ∧ ∀ host, trail vmName cluster host = []) ∨
    2 ≤ route.length ∧ ∃ home current md, route.head? = some home ∧ route.getLast? = some current ∧
      (trail vmName cluster current).getLast? = some md ∧ md.home = home ∧ md.history = route

/-- A teleport goes where the journey does: the address of "home" is that of the first host. -/
theorem teleport_onward {vmName hostIp target ip : String} {moves : Bool} {route onward : List String}
    {cluster : String → Host} (traced : Traced vmName route cluster)
    (moved : travel vmName route (.teleport hostIp vmName target moves) = some onward)
    (address : (if target = "home" then (trail vmName cluster hostIp).getLast?.map (·.home)
      else some target) = some ip) :
    (route.length ≤ 1 ∧ (∀ host, trail vmName cluster host = []) ∧ onward = [hostIp, ip]) ∨
      (2 ≤ route.length ∧ route.getLast? = some hostIp ∧ onward = route ++ [ip]) := by
  rcases traced with ⟨short, nowhere⟩ | ⟨long, home, current, record, begins, ends, latest, from_home, _⟩
  · -- Without a record "home" has no address.
    have named : target ≠ "home" := by
      rintro rfl
      rw [if_pos rfl,nowhere] at address
      contradiction
    rw [if_neg named,Option.some.injEq] at address
    refine .inl ⟨short, nowhere, ?_⟩
    rcases travel_teleport moved with ⟨_, _, _, rfl⟩ | ⟨home, goal, _, here, is, _, rfl⟩
    · rw [address]
    · rw [if_neg named,address] at is
      match route with
      | [] => contradiction
      | [only] =>
        cases here
        rw [is]
        rfl
      | _ :: _ :: _ => exact absurd short (by simp)
  · rcases travel_teleport moved with ⟨rfl, _⟩ | ⟨first, goal, is_first, here, is, _, rfl⟩
    · exact absurd long (by simp)
    · cases is_first.symm.trans begins
      cases here.symm.trans ends
      rw [latest,Option.map_some,from_home,← apply_ite some,← is,Option.some.injEq] at address
      exact .inr ⟨long, here, by rw [address]⟩

theorem step_traced {hosts : List String} {vmName : String} {route onward : List String}
    {cluster next : String → Host} {event : ClusterEvent} (traced : Traced vmName route cluster)
    (taken : clusterStep hosts cluster event = some next)
    (moved : travel vmName route event = some onward) : Traced vmName onward next := by
  by_cases same : event.vmName = vmName
  · cases event with
    | start hostIp name =>
      obtain rfl : name = vmName := same
      obtain ⟨rfl, rfl⟩ := travel_start moved
      rcases traced with ⟨_, nowhere⟩ | ⟨long, _⟩
      · exact .inl ⟨Nat.le_refl 1, fun host => by rw [start_trail taken,nowhere]⟩
      · exact absurd long (by simp)
    | teleport hostIp name target moves =>
      obtain rfl : name = vmName := same
      obtain ⟨ip, md, session, address, away, left, arrived, _⟩ := teleport_trail taken
      have last : (trail name next ip).getLast? = some (guestMetadata ip name session md) := by
        rw [arrived,List.getLast?_concat]
      rcases teleport_onward traced moved address with ⟨_, nowhere, rfl⟩ | ⟨_, here, rfl⟩
      · -- The first teleport of a VM: there is no record of it anywhere.
        rcases left with ⟨_, _, there, _⟩ | ⟨_, _, rfl⟩
        · exact absurd (there.symm.trans (nowhere hostIp)) (by simp)
        · exact .inr ⟨Nat.le_refl 2, hostIp, ip, _, rfl, rfl, last, rfl, rfl⟩
      · rcases traced with ⟨short, _⟩ | ⟨_, home, current, record, begins, ends, latest, from_home, told⟩
        · omega
        · cases here.symm.trans ends
          have sent : md = ⟨record.home, record.history⟩ := by
            rcases left with ⟨older, final, there, _, sent⟩ | ⟨missing, _⟩
            · rw [there,List.getLast?_concat] at latest
              cases latest
              exact sent
            · rw [missing] at latest
              contradiction
          subst sent
          refine .inr ⟨by rw [List.length_append]; omega, home, ip, _, ?_, List.getLast?_concat, last, from_home, ?_⟩
          · rw [List.head?_append,begins]
            rfl
          · rw [guestMetadata,told]
  · rw [travel_other same] at moved
    cases moved
    rwa [Traced,other_trail taken same]

theorem run_traced {hosts : List String} {vmName : String} {route : List String}
    {events : List ClusterEvent} {final : String → Host}
    (reached : Runs.run (clusterStep hosts) emptyCluster events = some final)
    (journey : Runs.run (travel vmName) [] events = some route) : Traced vmName route final := by
  revert journey
  apply Runs.run_history (fun past cluster => ∀ route, Runs.run (travel vmName) [] past = some route →
    Traced vmName route cluster) _ _ reached route
  · intro route started
    cases started
    exact .inl ⟨Nat.zero_le 1, fun _ => rfl⟩
  · intro past cluster event next _ traced taken onward gone
    obtain ⟨route, before, moved⟩ := Runs.run_snoc_some gone
    exact step_traced (traced route before) taken moved

end Hpvc.Executer
