import Hpvc.HostEnding
import Hpvc.ProjectProcesses

/-! The end of the host load balancer seen from the other processes: a round behind `finish_sem`, with its test and
its migrations, the setting of `finish` and the return are one step each. -/
namespace Hpvc.Project

open HostBalancer (Cluster FinishState FinishEvent FinishSteps Ending finishStep launchMaster onlyCluster)

variable {k : Simulation} {clusters : Fin 1 → Cluster} {b next : FinishState 1}

/-- Whether `finish` is set and whether the load balancer has returned is all they have of it. -/
def observed (s : Processes) (b : FinishState 1) : Processes :=
  { s with
    finalize := if b.finish then .ended else .setting
    hostLoadBalance :=
      match b.policies onlyCluster with
      | .returned => .ended
      | _ => .looping }

/-- The step that an event completes, if it completes one. -/
def observedEvent (b : FinishState 1) : FinishEvent 1 → Option ProcessEvent
  | .release _ =>
    match b.policies onlyCluster with
    | .breaking => some .stop
    | _ => some .scan
  | .setFinish => some .proceed
  | _ => none

def observedEvents (clusters : Fin 1 → Cluster) : FinishState 1 → List (FinishEvent 1) → List ProcessEvent :=
  Runs.trace (finishStep clusters) fun b event => (observedEvent b event).toList

theorem observed_congr (s : Processes) (finish : next.finish = b.finish)
    (policy : next.policies onlyCluster = .returned ↔ b.policies onlyCluster = .returned) :
    observed s next = observed s b := by
  unfold observed
  rw [finish]
  congr 1
  cases is : b.policies onlyCluster with
  | returned => rw [policy.mpr is]
  | _ =>
    cases now : next.policies onlyCluster with
    | returned => simp [is] at policy; exact absurd now policy
    | _ => rfl

theorem setPolicy_own (b : FinishState 1) (c : Fin 1) (policy : HostBalancer.Policy) :
    (b.setPolicy c policy).policies onlyCluster = policy := by
  rw [Subsingleton.elim onlyCluster c]
  exact Function.update_self ..

/-- Who returns does not come back. -/
theorem release_returned {left : FinishState 1}
    (blocked : .policy onlyCluster ∈ left.finishSem.waiting → left.policies onlyCluster = .acquiring) :
    left.release.policies onlyCluster = .returned ↔ left.policies onlyCluster = .returned := by
  by_cases waits : .policy onlyCluster ∈ left.finishSem.waiting
  · have acquiring := blocked waits
    rcases HostBalancer.release_policy left onlyCluster with same | testing
    · rw [same]
    · rw [testing,acquiring]
      simp
  · rw [HostBalancer.release_unblocked waits]

theorem run_unseen {s : Processes} (same : observed s next = observed s b) :
    Runs.run (processStep k) (observed s b) [] = some (observed s next) := congrArg some same.symm

theorem step_observed (ending : Ending clusters b) (s : Processes) {event : FinishEvent 1}
    (taken : finishStep clusters b event = some next) :
    Runs.run (processStep k) (observed s b) (observedEvent b event).toList = some (observed s next) := by
  have own (c : Fin 1) : c = onlyCluster := Subsingleton.elim c onlyCluster
  have blocked : .policy onlyCluster ∈ b.finishSem.waiting → b.policies onlyCluster = .acquiring :=
    ending.exclusive.policy_waits
  -- Who holds the semaphore does not wait for it, so its own release lets in another one.
  have unblocked (goes_on : b.policies onlyCluster ≠ .acquiring) : .policy onlyCluster ∉ b.finishSem.waiting :=
    mt blocked goes_on
  cases HostBalancer.finishStep_steps taken with
  | wakes c sleeping =>
    obtain rfl := own c
    refine run_unseen (observed_congr s (HostBalancer.acquire_finish ..) ?_)
    rcases HostBalancer.acquire_policy b (.policy onlyCluster) onlyCluster with same | ⟨_, testing | acquiring⟩
    · rw [same]
    · rw [testing,sleeping]
      simp
    · rw [acquiring,sleeping]
      simp
  | tests c testing =>
    obtain rfl := own c
    refine run_unseen (observed_congr s rfl ?_)
    rw [setPolicy_own,testing]
    split <;> simp
  | passes c z scanning more =>
    obtain rfl := own c
    refine run_unseen (observed_congr s rfl ?_)
    rw [setPolicy_own,scanning]
    simp
  | places c z placement scanning more =>
    obtain rfl := own c
    refine run_unseen (observed_congr s rfl ?_)
    rw [setPolicy_own,scanning]
    simp
  | migrates c z placement placing =>
    obtain rfl := own c
    refine run_unseen (observed_congr s rfl ?_)
    rw [setPolicy_own,placing]
    simp
  | rounds c z scanning all =>
    obtain rfl := own c
    have unset : b.finish = false := ending.exclusive.unset onlyCluster (by rw [scanning]; trivial)
    have outside := unblocked (by simp [scanning])
    have same : observed s (b.setPolicy onlyCluster .sleeping).release = observed s b := by
      refine observed_congr s (HostBalancer.release_finish _) ?_
      rw [HostBalancer.release_unblocked (s := b.setPolicy onlyCluster .sleeping) outside,setPolicy_own,scanning]
      simp
    rw [same]
    simp [observedEvent,observed,scanning,unset,Runs.run_cons,processStep]
  | breaks c breaking =>
    obtain rfl := own c
    have set := ending.found onlyCluster breaking
    have outside := unblocked (by simp [breaking])
    have returned : (b.setPolicy onlyCluster .returned).release.policies onlyCluster = .returned := by
      rw [HostBalancer.release_unblocked (s := b.setPolicy onlyCluster .returned) outside,setPolicy_own]
    have still : (b.setPolicy onlyCluster .returned).finish = true := set
    simp [observedEvent,observed,breaking,set,still,returned,Runs.run_cons,processStep]
  | calls notifying =>
    refine run_unseen (observed_congr s (HostBalancer.acquire_finish ..) ?_)
    rcases HostBalancer.acquire_policy b .finalize onlyCluster with same | ⟨is, _⟩
    · rw [same]
    · cases is
  | sets setting =>
    have unset : b.finish = false := by
      rw [Bool.eq_false_iff]
      intro set
      have past := ending.set.mp set
      rw [setting] at past
      exact past
    simp [observedEvent,observed,unset,Runs.run_cons,processStep,GetFinalize.proceed,FinishState.setFinalize]
  | leaves releasing =>
    have same : (b.setFinalize .returned).release.policies onlyCluster = .returned ↔
        b.policies onlyCluster = .returned := release_returned blocked
    exact run_unseen (observed_congr s (HostBalancer.release_finish _) same)

/-- Every run behind the semaphore is a run of the processes, in which the rounds that end, the setting of `finish`
and the return of the load balancer are single steps that come in the order in which they are completed. -/
theorem rounds_atomic {events : List (FinishEvent 1)} (s : Processes) {final : FinishState 1}
    (reached : Runs.run (finishStep clusters) (launchMaster 1) events = some final) :
    Runs.run (processStep k) (observed s (launchMaster 1)) (observedEvents clusters (launchMaster 1) events) =
      some (observed s final) := by
  refine Runs.run_trace (Ending clusters) (observed s) (fun b event => (observedEvent b event).toList) ?_ ?_
    HostBalancer.launchMaster_ending reached
  · intro b event next ending taken
    exact HostBalancer.step_ending ending taken
  · intro b event next ending taken
    exact step_observed ending s taken

def noTasks : Simulation := ⟨0, 1, fun _ => 1, 0, fun _ => ⟨0, le_rfl, zero_lt_one⟩⟩

/-- `get_finalize` comes in the middle of a round. -/
theorem rounds_atomic_late : ∃ final,
    Runs.run (processStep noTasks) (observed noTasks.start (launchMaster 1)) [.scan, .proceed, .stop] =
      some (observed noTasks.start final) ∧ (observed noTasks.start final).hostLoadBalance = .ended := by
  have ends : (Runs.run (finishStep fun _ => HostBalancer.oneHost) (launchMaster 1) HostBalancer.lateFinish).map
      (fun b => b.policies onlyCluster) = some .returned := rfl
  obtain ⟨final, reached, returned⟩ := Option.map_eq_some_iff.mp ends
  refine ⟨final, rounds_atomic noTasks.start reached, ?_⟩
  simp only [observed,returned]

end Hpvc.Project
