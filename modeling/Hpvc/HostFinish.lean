import Hpvc.HostPlacement
import Hpvc.Library.Semaphore
import Mathlib.Data.Fintype.Sum
import Mathlib.Tactic.DeriveFintype

/-! The end of the host load balancers: each holds `finish_sem` over a round of its policy, and
`get_finalize` sets `finish` under the same semaphore. The steps come in any order, and
`MSG_vm_migrate` lets the others run. -/
namespace Hpvc.HostBalancer

open Semaphores

/-- Where `policy_func_inhab_mig` is. `z` counts the hosts of a round; in `place_vm` it keeps
the placement that was selected. -/
inductive Policy where
  | sleeping
  | acquiring
  | testing
  | scanning (z : Nat)
  | placing (z : Nat) (placement : VmPlacement)
  | breaking
  | returned

/-- Where `get_finalize` is; before the semaphore it collects, notifies and sleeps. -/
inductive GetFinalize where
  | notifying | acquiring | setting | releasing | returned

inductive Party (n : Nat) where
  | policy (clusterId : Fin n)
  | finalize
  deriving DecidableEq, Fintype

/-- The processes on `finish_sem` and what they share. -/
structure FinishState (n : Nat) where
  finishSem : Semaphore (Party n)
  finish : Bool
  policies : Fin n → Policy
  finalize : GetFinalize

/-- `launch_master` -/
def launchMaster (n : Nat) : FinishState n where
  finishSem := Semaphore.init 1
  finish := false
  policies _ := .sleeping
  finalize := .notifying

variable {n : Nat}

def FinishState.setPolicy (s : FinishState n) (clusterId : Fin n) (policy : Policy) : FinishState n :=
  { s with policies := Function.update s.policies clusterId policy }

def FinishState.setFinalize (s : FinishState n) (finalize : GetFinalize) : FinishState n :=
  { s with finalize }

/-- The acquire of a process returns. -/
def FinishState.enter (s : FinishState n) : Option (Party n) → FinishState n
  | none => s
  | some (.policy clusterId) => s.setPolicy clusterId .testing
  | some .finalize => s.setFinalize .setting

def FinishState.block (s : FinishState n) : Party n → FinishState n
  | .policy clusterId => s.setPolicy clusterId .acquiring
  | .finalize => s.setFinalize .acquiring

/-- `MSG_sem_acquire(finish_sem)` -/
def FinishState.acquire (s : FinishState n) (p : Party n) : FinishState n :=
  let called := { s with finishSem := (s.finishSem.acquire p).2 }
  if (s.finishSem.acquire p).1 then called.enter (some p) else called.block p

/-- `MSG_sem_release(finish_sem)`, with the caller already where it goes on. -/
def FinishState.release (s : FinishState n) : FinishState n :=
  { s with finishSem := s.finishSem.release.2 }.enter s.finishSem.release.1

/-- The steps of the policy of a cluster (the end of its sleep, its test of `finish`, a host
without migration, a call of `place_vm` and its return, either of its releases), and those of
`get_finalize`. -/
inductive FinishEvent (n : Nat) where
  | wake (clusterId : Fin n)
  | test (clusterId : Fin n)
  | pass (clusterId : Fin n)
  | place (clusterId : Fin n) (placement : VmPlacement)
  | migrated (clusterId : Fin n)
  | release (clusterId : Fin n)
  | finalizeAcquire
  | setFinish
  | finalizeRelease

def finishStep (clusters : Fin n → Cluster) (s : FinishState n) : FinishEvent n → Option (FinishState n)
  | .wake c =>
    match s.policies c with
    | .sleeping => some (s.acquire (.policy c))
    | _ => none
  | .test c =>
    match s.policies c with
    | .testing => some (s.setPolicy c (if s.finish then .breaking else .scanning (clusters c).firstHost))
    | _ => none
  | .pass c =>
    match s.policies c with
    | .scanning z =>
      if z < (clusters c).firstHost + (clusters c).numberOfInvolvedHost then
        some (s.setPolicy c (.scanning (z + 1)))
      else none
    | _ => none
  | .place c placement =>
    match s.policies c with
    | .scanning z =>
      if z < (clusters c).firstHost + (clusters c).numberOfInvolvedHost then
        some (s.setPolicy c (.placing z placement))
      else none
    | _ => none
  | .migrated c =>
    match s.policies c with
    | .placing z _ => some (s.setPolicy c (.scanning (z + 1)))
    | _ => none
  | .release c =>
    match s.policies c with
    | .scanning z =>
      if z < (clusters c).firstHost + (clusters c).numberOfInvolvedHost then none
      else some (s.setPolicy c .sleeping).release
    | .breaking => some (s.setPolicy c .returned).release
    | _ => none
  | .finalizeAcquire =>
    match s.finalize with
    | .notifying => some (s.acquire .finalize)
    | _ => none
  | .setFinish =>
    match s.finalize with
    | .setting => some { s.setFinalize .releasing with finish := true }
    | _ => none
  | .finalizeRelease =>
    match s.finalize with
    | .releasing => some (s.setFinalize .returned).release
    | _ => none

def Policy.standing : Policy → Standing
  | .sleeping | .returned => .outside
  | .acquiring => .blocked
  | _ => .inside

def GetFinalize.standing : GetFinalize → Standing
  | .notifying | .returned => .outside
  | .acquiring => .blocked
  | _ => .inside

/-- Between a return of `MSG_sem_acquire` and the `MSG_sem_release` after it a process is inside. -/
def FinishState.standing (s : FinishState n) : Party n → Standing
  | .policy clusterId => (s.policies clusterId).standing
  | .finalize => s.finalize.standing

/-- A round that found `finish` unset. -/
def Policy.Scans : Policy → Prop
  | .scanning _ | .placing _ _ => True
  | _ => False

def Policy.Placing : Policy → Prop
  | .placing _ _ => True
  | _ => False

/-- The semaphore is in order, and no round goes on once `finish` is set. -/
structure Exclusive (s : FinishState n) : Prop where
  balanced : Balanced 1 s.finishSem s.standing
  unset : ∀ c, (s.policies c).Scans → s.finish = false

@[simp] theorem setPolicy_finishSem (s : FinishState n) (c : Fin n) (policy : Policy) :
    (s.setPolicy c policy).finishSem = s.finishSem := rfl

theorem setPolicy_standing (s : FinishState n) (c : Fin n) (policy : Policy) :
    (s.setPolicy c policy).standing = Function.update s.standing (.policy c) policy.standing := by
  funext p
  cases p with
  | policy d =>
    by_cases same : d = c
    · subst same
      simp [FinishState.standing,FinishState.setPolicy]
    · simp [FinishState.standing,FinishState.setPolicy,same]
  | finalize => simp [FinishState.standing,FinishState.setPolicy]

theorem setFinalize_standing (s : FinishState n) (finalize : GetFinalize) :
    (s.setFinalize finalize).standing = Function.update s.standing .finalize finalize.standing := by
  funext p
  cases p with
  | policy d => simp [FinishState.standing,FinishState.setFinalize]
  | finalize => simp [FinishState.standing,FinishState.setFinalize]

theorem setPolicy_scans {s : FinishState n} {c d : Fin n} {policy : Policy}
    (scans : ((s.setPolicy c policy).policies d).Scans) : policy.Scans ∨ (s.policies d).Scans := by
  by_cases same : d = c
  · subst same
    simp only [FinishState.setPolicy,Function.update_self] at scans
    exact .inl scans
  · simp only [FinishState.setPolicy,Function.update_of_ne same] at scans
    exact .inr scans

@[simp] theorem enter_finish (s : FinishState n) (p : Option (Party n)) : (s.enter p).finish = s.finish := by
  rcases p with _ | _ | _ <;> rfl

@[simp] theorem enter_finishSem (s : FinishState n) (p : Option (Party n)) :
    (s.enter p).finishSem = s.finishSem := by
  rcases p with _ | _ | _ <;> rfl

theorem enter_standing (s : FinishState n) (p : Party n) :
    (s.enter (some p)).standing = Function.update s.standing p .inside := by
  cases p with
  | policy c => exact setPolicy_standing s c .testing
  | finalize => exact setFinalize_standing s .setting

theorem enter_scans {s : FinishState n} {p : Option (Party n)} {c : Fin n}
    (scans : ((s.enter p).policies c).Scans) : (s.policies c).Scans := by
  rcases p with _ | d | _
  · exact scans
  · exact (setPolicy_scans scans).resolve_left id
  · exact scans

theorem block_standing (s : FinishState n) (p : Party n) :
    (s.block p).standing = Function.update s.standing p .blocked := by
  cases p with
  | policy c => exact setPolicy_standing s c .acquiring
  | finalize => exact setFinalize_standing s .acquiring

theorem block_scans {s : FinishState n} {p : Party n} {c : Fin n}
    (scans : ((s.block p).policies c).Scans) : (s.policies c).Scans := by
  cases p with
  | policy d => exact (setPolicy_scans scans).resolve_left id
  | finalize => exact scans

@[simp] theorem acquire_finish (s : FinishState n) (p : Party n) : (s.acquire p).finish = s.finish := by
  unfold FinishState.acquire
  dsimp only
  split
  · exact enter_finish _ _
  · cases p <;> rfl

@[simp] theorem release_finish (s : FinishState n) : s.release.finish = s.finish := enter_finish _ _

theorem acquire_exclusive {s : FinishState n} {p : Party n} (exclusive : Exclusive s)
    (outside : s.standing p = .outside) : Exclusive (s.acquire p) := by
  have balanced := exclusive.balanced.acquire outside
  unfold FinishState.acquire
  dsimp only
  split
  next granted =>
    rw [granted] at balanced
    refine ⟨?_, fun c scans => ?_⟩
    · rw [enter_finishSem,enter_standing]
      exact balanced
    · have before := enter_scans scans
      rw [enter_finish]
      exact exclusive.unset c before
  next refused =>
    rw [Bool.eq_false_iff.mpr refused] at balanced
    refine ⟨?_, fun c scans => ?_⟩
    · rw [block_standing]
      cases p <;> exact balanced
    · have before := block_scans scans
      have unset := exclusive.unset c before
      cases p <;> exact unset

/-- A process moves on to where it is outside and lets the next one in. -/
theorem release_exclusive {s left : FinishState n} {p : Party n} (exclusive : Exclusive s)
    (inside : s.standing p = .inside) (same : left.finishSem = s.finishSem) (finish : left.finish = s.finish)
    (standing : left.standing = Function.update s.standing p .outside)
    (scans : ∀ c, (left.policies c).Scans → (s.policies c).Scans) : Exclusive left.release := by
  have balanced := exclusive.balanced.release inside
  refine ⟨?_, fun c goes_on => ?_⟩
  · rw [FinishState.release,enter_finishSem,same]
    cases woken : s.finishSem.release.1 with
    | none =>
      rw [woken] at balanced
      simp only [FinishState.enter]
      exact standing ▸ balanced
    | some q =>
      rw [woken] at balanced
      rw [enter_standing]
      exact standing ▸ balanced
  · have before := enter_scans goes_on
    rw [release_finish,finish]
    exact exclusive.unset c (scans c before)

/-- A process inside goes on inside. -/
theorem setPolicy_exclusive {s : FinishState n} {c : Fin n} {policy : Policy} (exclusive : Exclusive s)
    (inside : (s.policies c).standing = .inside) (remains : policy.standing = .inside)
    (unset : policy.Scans → s.finish = false) : Exclusive (s.setPolicy c policy) := by
  refine ⟨?_, fun d scans => ?_⟩
  · have unchanged : Function.update s.standing (.policy c) policy.standing = s.standing := by
      rw [remains,← inside]
      exact Function.update_eq_self (Party.policy c) s.standing
    rw [setPolicy_finishSem,setPolicy_standing,unchanged]
    exact exclusive.balanced
  · rcases setPolicy_scans scans with now | before
    · exact unset now
    · exact exclusive.unset d before

theorem policyRelease_exclusive {s : FinishState n} {c : Fin n} {policy : Policy} (exclusive : Exclusive s)
    (inside : (s.policies c).standing = .inside) (outside : policy.standing = .outside)
    (stops : ¬ policy.Scans) : Exclusive (s.setPolicy c policy).release :=
  release_exclusive (p := .policy c) exclusive inside rfl rfl (by rw [setPolicy_standing,outside])
    fun _ scans => (setPolicy_scans scans).resolve_left stops

/-- While `get_finalize` is about to set `finish`, no round goes on. -/
theorem Exclusive.nobody_scans {s : FinishState n} (exclusive : Exclusive s) (setting : s.finalize = .setting)
    (c : Fin n) : ¬ (s.policies c).Scans := by
  intro scans
  have inside : s.standing (.policy c) = .inside := by
    simp only [FinishState.standing]
    cases is : s.policies c with
    | scanning z => rfl
    | placing z placement => rfl
    | _ =>
      rw [is] at scans
      cases scans
  have other : s.standing .finalize = .inside := by
    simp only [FinishState.standing,setting,GetFinalize.standing]
  cases exclusive.balanced.exclusive inside other

/-- The steps other than the setting of `finish`: into the semaphore, on inside it, out of it. -/
inductive Passes (s : FinishState n) : FinishState n → Prop
  | enters (p : Party n) (outside : s.standing p = .outside) : Passes s (s.acquire p)
  | goesOn (c : Fin n) (policy : Policy) (inside : (s.policies c).standing = .inside)
      (remains : policy.standing = .inside) (unset : policy.Scans → (s.policies c).Scans ∨ s.finish = false) :
      Passes s (s.setPolicy c policy)
  | leaves (c : Fin n) (policy : Policy) (inside : (s.policies c).standing = .inside)
      (outside : policy.standing = .outside) (stops : ¬ policy.Scans) : Passes s (s.setPolicy c policy).release
  | finalizeLeaves (releasing : s.finalize = .releasing) : Passes s (s.setFinalize .returned).release

theorem finishStep_passes {clusters : Fin n → Cluster} {s next : FinishState n} {event : FinishEvent n}
    (other : event ≠ .setFinish) (taken : finishStep clusters s event = some next) : Passes s next := by
  cases event with
  | wake c =>
    simp only [finishStep] at taken
    split at taken
    next is =>
      cases taken
      exact .enters (.policy c) (by simp only [FinishState.standing,is,Policy.standing])
    next => cases taken
  | test c =>
    simp only [finishStep] at taken
    split at taken
    next is =>
      cases taken
      refine .goesOn c _ (by rw [is]; rfl) (by split <;> rfl) ?_
      cases s.finish with
      | false => exact fun _ => .inr rfl
      | true => exact False.elim
    next => cases taken
  | pass c =>
    simp only [finishStep] at taken
    split at taken
    next z is =>
      split at taken
      next =>
        cases taken
        exact .goesOn c _ (by rw [is]; rfl) rfl fun _ => .inl (by rw [is]; trivial)
      next => cases taken
    next => cases taken
  | place c placement =>
    simp only [finishStep] at taken
    split at taken
    next z is =>
      split at taken
      next =>
        cases taken
        exact .goesOn c _ (by rw [is]; rfl) rfl fun _ => .inl (by rw [is]; trivial)
      next => cases taken
    next => cases taken
  | migrated c =>
    simp only [finishStep] at taken
    split at taken
    next z _ is =>
      cases taken
      exact .goesOn c _ (by rw [is]; rfl) rfl fun _ => .inl (by rw [is]; trivial)
    next => cases taken
  | release c =>
    simp only [finishStep] at taken
    split at taken
    next z is =>
      split at taken
      next => cases taken
      next =>
        cases taken
        exact .leaves c _ (by rw [is]; rfl) rfl id
    next is =>
      cases taken
      exact .leaves c _ (by rw [is]; rfl) rfl id
    next => cases taken
  | finalizeAcquire =>
    simp only [finishStep] at taken
    split at taken
    next is =>
      cases taken
      exact .enters .finalize (by simp only [FinishState.standing,is,GetFinalize.standing])
    next => cases taken
  | setFinish => exact absurd rfl other
  | finalizeRelease =>
    simp only [finishStep] at taken
    split at taken
    next is =>
      cases taken
      exact .finalizeLeaves is
    next => cases taken

theorem finishStep_setFinish {clusters : Fin n → Cluster} {s next : FinishState n}
    (taken : finishStep clusters s .setFinish = some next) :
    s.finalize = .setting ∧ next = { s.setFinalize .releasing with finish := true } := by
  simp only [finishStep] at taken
  split at taken
  next is => exact ⟨is, (Option.some.inj taken).symm⟩
  next => cases taken

theorem Passes.exclusive {s next : FinishState n} (passes : Passes s next) (exclusive : Exclusive s) :
    Exclusive next := by
  cases passes with
  | enters p outside => exact acquire_exclusive exclusive outside
  | goesOn c policy inside remains unset =>
    exact setPolicy_exclusive exclusive inside remains fun scans => (unset scans).elim (exclusive.unset c) id
  | leaves c policy inside outside stops => exact policyRelease_exclusive exclusive inside outside stops
  | finalizeLeaves releasing =>
    exact release_exclusive (p := .finalize) exclusive
      (by simp only [FinishState.standing,releasing,GetFinalize.standing]) rfl rfl (setFinalize_standing _ _)
      fun _ scans => scans

theorem Passes.finish {s next : FinishState n} (passes : Passes s next) : next.finish = s.finish := by
  cases passes with
  | enters p => exact acquire_finish s p
  | goesOn => rfl
  | leaves => exact release_finish _
  | finalizeLeaves => exact release_finish _

theorem step_exclusive {clusters : Fin n → Cluster} {s next : FinishState n} {event : FinishEvent n}
    (exclusive : Exclusive s) (taken : finishStep clusters s event = some next) : Exclusive next := by
  cases event with
  | setFinish =>
    obtain ⟨setting, rfl⟩ := finishStep_setFinish taken
    refine ⟨?_, fun c scans => absurd scans (exclusive.nobody_scans setting c)⟩
    have unchanged : (s.setFinalize .releasing).standing = s.standing := by
      rw [setFinalize_standing,Function.update_eq_self_iff]
      simp only [FinishState.standing,setting,GetFinalize.standing]
    exact unchanged ▸ exclusive.balanced
  | _ => exact (finishStep_passes (by simp) taken).exclusive exclusive

theorem launchMaster_exclusive : Exclusive (launchMaster n) where
  balanced := balanced_init fun p => by cases p <;> rfl
  unset _ scans := False.elim scans

theorem run_exclusive {clusters : Fin n → Cluster} {events : List (FinishEvent n)} {s : FinishState n}
    (reached : Runs.run (finishStep clusters) (launchMaster n) events = some s) : Exclusive s :=
  Runs.run_invariant Exclusive (fun _ _ _ exclusive taken => step_exclusive exclusive taken)
    launchMaster_exclusive reached

/-- Only `get_finalize` sets `finish`, and nothing unsets it. -/
theorem step_finish {clusters : Fin n → Cluster} {s next : FinishState n} {event : FinishEvent n}
    (taken : finishStep clusters s event = some next) :
    next.finish = true ↔ s.finish = true ∨ event = .setFinish := by
  cases event with
  | setFinish =>
    obtain ⟨_, rfl⟩ := finishStep_setFinish taken
    simp
  | _ => simp [(finishStep_passes (by simp) taken).finish]

theorem run_finish {clusters : Fin n → Cluster} {events : List (FinishEvent n)} {s : FinishState n}
    (reached : Runs.run (finishStep clusters) (launchMaster n) events = some s) :
    s.finish = true ↔ FinishEvent.setFinish ∈ events := by
  apply Runs.run_history (fun past mid => mid.finish = true ↔ FinishEvent.setFinish ∈ past) _ _ reached
  · simp [launchMaster]
  · intro past mid event next _ before taken
    rw [step_finish taken,before,List.mem_append,List.mem_singleton]
    exact or_congr_right eq_comm

theorem place_scans {clusters : Fin n → Cluster} {s next : FinishState n} {c : Fin n} {placement : VmPlacement}
    (taken : finishStep clusters s (.place c placement) = some next) : (s.policies c).Scans := by
  simp only [finishStep] at taken
  split at taken
  next z is =>
    rw [is]
    trivial
  next => cases taken

theorem Policy.Placing.scans {policy : Policy} (placing : policy.Placing) : policy.Scans := by
  cases policy with
  | placing z placement => trivial
  | _ => cases placing

/-- In every run of the policies with `get_finalize`: `finish` is set only while no migration is in
progress, no `place_vm` starts after it, at most one process is between its acquire and
its release, and when all have returned the value of the semaphore is one again. -/
theorem no_migration_after_finish {clusters : Fin n → Cluster} {events : List (FinishEvent n)}
    {s : FinishState n} (reached : Runs.run (finishStep clusters) (launchMaster n) events = some s) :
    (∀ before rest mid, events = before ++ .setFinish :: rest →
      Runs.run (finishStep clusters) (launchMaster n) before = some mid → ∀ c, ¬ (mid.policies c).Placing) ∧
    (∀ before rest, events = before ++ .setFinish :: rest → ∀ c placement, .place c placement ∉ rest) ∧
    (∀ p q, s.standing p = .inside → s.standing q = .inside → p = q) ∧
    ((∀ c, s.policies c = .returned) → s.finalize = .returned → s.finishSem.value = 1) := by
  have exclusive := run_exclusive reached
  refine ⟨?_, ?_, fun p q => exclusive.balanced.exclusive, fun policies finalize => ?_⟩
  · rintro before rest mid rfl there c placing
    obtain ⟨_, same, later⟩ := Runs.run_append_some reached
    cases there.symm.trans same
    obtain ⟨_, taken, _⟩ := Option.bind_eq_some_iff.mp later
    exact (run_exclusive there).nobody_scans (finishStep_setFinish taken).1 c placing.scans
  · rintro before rest rfl c placement member
    obtain ⟨between, after, rfl⟩ := List.append_of_mem member
    rw [← List.cons_append,← List.append_assoc] at reached
    obtain ⟨mid, there, later⟩ := Runs.run_append_some reached
    obtain ⟨_, taken, _⟩ := Option.bind_eq_some_iff.mp later
    have unset := (run_exclusive there).unset c (place_scans taken)
    have set := (run_finish there).mpr (by simp)
    rw [unset] at set
    cases set
  · apply exclusive.balanced.free
    intro p
    cases p with
    | policy c => simp [FinishState.standing,policies c,Policy.standing]
    | finalize => simp [FinishState.standing,finalize,GetFinalize.standing]

/-- One host and one VM. -/
def oneHost : Cluster := ⟨1, 1, 0, 1, le_rfl, by norm_num⟩

/-- `get_finalize` comes while a VM is migrated and is let in after the round. -/
def lateFinish : List (FinishEvent 1) :=
  [.wake 0, .test 0, .place 0 ⟨0, 0⟩, .finalizeAcquire, .migrated 0, .release 0, .setFinish, .wake 0,
    .finalizeRelease, .test 0, .release 0]

theorem no_migration_after_lateFinish :
    ∃ s, Runs.run (finishStep fun _ => oneHost) (launchMaster 1) lateFinish = some s ∧ s.finish = true ∧
      s.finishSem.value = 1 := by
  have ends : (Runs.run (finishStep fun _ => oneHost) (launchMaster 1) lateFinish).map
      (fun s => (s.finish, s.policies 0, s.finalize)) = some (true, .returned, .returned) := rfl
  obtain ⟨s, reached, same⟩ := Option.map_eq_some_iff.mp ends
  simp only [Prod.mk.injEq] at same
  obtain ⟨set, policy, finalize⟩ := same
  refine ⟨s, reached, set, (no_migration_after_finish reached).2.2.2 (fun c => ?_) finalize⟩
  rw [Fin.fin_one_eq_zero c]
  exact policy

end Hpvc.HostBalancer
