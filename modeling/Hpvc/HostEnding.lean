import Hpvc.HostFinish
import Hpvc.Library.Progress
import Mathlib.Algebra.Order.BigOperators.Group.Finset

/-! Why the host load balancers end. Who is blocked on `finish_sem` goes on in turn, so `get_finalize` waits only
for the rounds of those that were there before it, and whoever comes to the test after it finds `finish` set. -/
namespace Hpvc.HostBalancer

open Semaphores

variable {n : Nat} {clusters : Fin n → Cluster} {s next : FinishState n}

/-- The first host after those of a round. -/
def Cluster.endHost (cluster : Cluster) : Nat := cluster.firstHost + cluster.numberOfInvolvedHost

/-- What each event needs and leads to. -/
inductive FinishSteps (clusters : Fin n → Cluster) (s : FinishState n) : FinishEvent n → FinishState n → Prop where
  | wakes (c : Fin n) (sleeping : s.policies c = .sleeping) :
      FinishSteps clusters s (.wake c) (s.acquire (.policy c))
  | tests (c : Fin n) (testing : s.policies c = .testing) :
      FinishSteps clusters s (.test c)
        (s.setPolicy c (if s.finish then .breaking else .scanning (clusters c).firstHost))
  | passes (c : Fin n) (z : Nat) (scanning : s.policies c = .scanning z) (more : z < (clusters c).endHost) :
      FinishSteps clusters s (.pass c) (s.setPolicy c (.scanning (z + 1)))
  | places (c : Fin n) (z : Nat) (placement : VmPlacement) (scanning : s.policies c = .scanning z)
      (more : z < (clusters c).endHost) :
      FinishSteps clusters s (.place c placement) (s.setPolicy c (.placing z placement))
  | migrates (c : Fin n) (z : Nat) (placement : VmPlacement) (placing : s.policies c = .placing z placement) :
      FinishSteps clusters s (.migrated c) (s.setPolicy c (.scanning (z + 1)))
  | rounds (c : Fin n) (z : Nat) (scanning : s.policies c = .scanning z) (all : (clusters c).endHost ≤ z) :
      FinishSteps clusters s (.release c) (s.setPolicy c .sleeping).release
  | breaks (c : Fin n) (breaking : s.policies c = .breaking) :
      FinishSteps clusters s (.release c) (s.setPolicy c .returned).release
  | calls (notifying : s.finalize = .notifying) : FinishSteps clusters s .finalizeAcquire (s.acquire .finalize)
  | sets (setting : s.finalize = .setting) :
      FinishSteps clusters s .setFinish { s.setFinalize .releasing with finish := true }
  | leaves (releasing : s.finalize = .releasing) :
      FinishSteps clusters s .finalizeRelease (s.setFinalize .returned).release

theorem finishStep_steps {event : FinishEvent n} (taken : finishStep clusters s event = some next) :
    FinishSteps clusters s event next := by
  cases event with
  | wake c =>
    simp only [finishStep] at taken
    split at taken
    next sleeping =>
      cases taken
      exact .wakes c sleeping
    next => contradiction
  | test c =>
    simp only [finishStep] at taken
    split at taken
    next testing =>
      cases taken
      exact .tests c testing
    next => contradiction
  | pass c =>
    simp only [finishStep] at taken
    split at taken
    next z scanning =>
      split at taken
      next more =>
        cases taken
        exact .passes c z scanning more
      next => contradiction
    next => contradiction
  | place c placement =>
    simp only [finishStep] at taken
    split at taken
    next z scanning =>
      split at taken
      next more =>
        cases taken
        exact .places c z placement scanning more
      next => contradiction
    next => contradiction
  | migrated c =>
    simp only [finishStep] at taken
    split at taken
    next z placement placing =>
      cases taken
      exact .migrates c z placement placing
    next => contradiction
  | release c =>
    simp only [finishStep] at taken
    split at taken
    next z scanning =>
      split at taken
      next => contradiction
      next all =>
        cases taken
        exact .rounds c z scanning (Nat.le_of_not_lt all)
    next breaking =>
      cases taken
      exact .breaks c breaking
    next => contradiction
  | finalizeAcquire =>
    simp only [finishStep] at taken
    split at taken
    next notifying =>
      cases taken
      exact .calls notifying
    next => contradiction
  | setFinish =>
    obtain ⟨setting, rfl⟩ := finishStep_setFinish taken
    exact .sets setting
  | finalizeRelease =>
    simp only [finishStep] at taken
    split at taken
    next releasing =>
      cases taken
      exact .leaves releasing
    next => contradiction

/-- A host that is looked at is one of the cluster. -/
def Policy.Within (cluster : Cluster) : Policy → Prop
  | .scanning z => cluster.firstHost ≤ z
  | .placing z _ => cluster.firstHost ≤ z ∧ z < cluster.endHost
  | _ => True

/-- `finish` is set by `get_finalize` in between its own acquire and release. -/
def GetFinalize.Past : GetFinalize → Prop
  | .releasing => True
  | .returned => True
  | _ => False

/-- What holds in every state, beside the order at the semaphore. -/
structure Ending (clusters : Fin n → Cluster) (s : FinishState n) : Prop where
  exclusive : Exclusive s
  within : ∀ c, (s.policies c).Within (clusters c)
  set : s.finish = true ↔ s.finalize.Past
  found : ∀ c, s.policies c = .breaking → s.finish = true

/-- A semaphore's call leaves a policy where it is, or at the call. -/
theorem acquire_policy (s : FinishState n) (p : Party n) (d : Fin n) :
    (s.acquire p).policies d = s.policies d ∨ p = .policy d ∧
      ((s.acquire p).policies d = .testing ∨ (s.acquire p).policies d = .acquiring) := by
  unfold FinishState.acquire
  dsimp only
  cases p with
  | finalize =>
    split <;> exact .inl rfl
  | policy c =>
    by_cases same : d = c
    · subst same
      split
      · exact .inr ⟨rfl, .inl (Function.update_self ..)⟩
      · exact .inr ⟨rfl, .inr (Function.update_self ..)⟩
    · split <;> exact .inl (Function.update_of_ne same ..)

theorem release_policy (s : FinishState n) (d : Fin n) :
    s.release.policies d = s.policies d ∨ s.release.policies d = .testing := by
  unfold FinishState.release
  rcases s.finishSem.release.1 with _ | c | _
  · exact .inl rfl
  · by_cases same : d = c
    · subst same
      exact .inr (Function.update_self ..)
    · exact .inl (Function.update_of_ne same ..)
  · exact .inl rfl

/-- A release lets in nobody but those that are blocked. -/
theorem release_unblocked {s : FinishState n} {d : Fin n} (unblocked : .policy d ∉ s.finishSem.waiting) :
    s.release.policies d = s.policies d := by
  unfold FinishState.release
  cases woken : s.finishSem.release.1 with
  | none => rfl
  | some p =>
    cases p with
    | finalize => rfl
    | policy c =>
      have other : d ≠ c := by
        rintro rfl
        exact unblocked (woken_waiting woken)
      exact Function.update_of_ne other ..

theorem setPolicy_within (within : ∀ c, (s.policies c).Within (clusters c)) (c : Fin n) (policy : Policy)
    (fine : policy.Within (clusters c)) (d : Fin n) : ((s.setPolicy c policy).policies d).Within (clusters d) := by
  by_cases same : d = c
  · subst same
    simpa only [FinishState.setPolicy,Function.update_self] using fine
  · simpa only [FinishState.setPolicy,Function.update_of_ne same] using within d

theorem release_within (within : ∀ c, (s.policies c).Within (clusters c)) (d : Fin n) :
    (s.release.policies d).Within (clusters d) := by
  rcases release_policy s d with same | testing
  · rw [same]
    exact within d
  · rw [testing]
    trivial

theorem step_within (within : ∀ c, (s.policies c).Within (clusters c)) {event : FinishEvent n}
    (steps : FinishSteps clusters s event next) (d : Fin n) : (next.policies d).Within (clusters d) := by
  have acquires (p : Party n) : ((s.acquire p).policies d).Within (clusters d) := by
    rcases acquire_policy s p d with same | ⟨_, testing | acquiring⟩
    · rw [same]
      exact within d
    · rw [testing]
      trivial
    · rw [acquiring]
      trivial
  cases steps with
  | wakes c sleeping => exact acquires (.policy c)
  | tests c testing =>
    refine setPolicy_within within c _ ?_ d
    split
    · trivial
    · exact le_rfl
  | passes c z scanning more =>
    have from_first := within c
    rw [scanning] at from_first
    exact setPolicy_within within c (.scanning (z + 1)) (Nat.le_succ_of_le from_first) d
  | places c z placement scanning more =>
    have from_first := within c
    rw [scanning] at from_first
    exact setPolicy_within within c (.placing z placement) ⟨from_first, more⟩ d
  | migrates c z placement placing =>
    have inside := within c
    rw [placing] at inside
    exact setPolicy_within within c (.scanning (z + 1)) (Nat.le_succ_of_le inside.1) d
  | rounds c z scanning all => exact release_within (setPolicy_within within c .sleeping trivial) d
  | breaks c breaking => exact release_within (setPolicy_within within c .returned trivial) d
  | calls notifying => exact acquires .finalize
  | sets setting => exact within d
  | leaves releasing => exact release_within (s := s.setFinalize .returned) within d

theorem acquire_finalize (s : FinishState n) (c : Fin n) : (s.acquire (.policy c)).finalize = s.finalize := by
  unfold FinishState.acquire
  dsimp only
  split <;> rfl

/-- `get_finalize` goes on only where it was blocked. -/
theorem release_finalize {s : FinishState n} (waits : .finalize ∈ s.finishSem.waiting → s.finalize = .acquiring) :
    s.release.finalize = s.finalize ∧ s.finishSem.release.1 ≠ some .finalize ∨
      s.finalize = .acquiring ∧ s.release.finalize = .setting ∧ s.finishSem.release.1 = some .finalize := by
  unfold FinishState.release
  cases woken : s.finishSem.release.1 with
  | none => exact .inl ⟨rfl, by simp⟩
  | some p =>
    cases p with
    | policy c => exact .inl ⟨rfl, by simp⟩
    | finalize => exact .inr ⟨waits (woken_waiting woken), rfl, rfl⟩

theorem blocked_acquiring {policy : Policy} (blocked : policy.standing = .blocked) : policy = .acquiring := by
  cases policy with
  | acquiring => rfl
  | _ => cases blocked

theorem finalize_acquiring {finalize : GetFinalize} (blocked : finalize.standing = .blocked) :
    finalize = .acquiring := by
  cases finalize with
  | acquiring => rfl
  | _ => cases blocked

theorem Exclusive.finalize_waits (exclusive : Exclusive s) (waits : .finalize ∈ s.finishSem.waiting) :
    s.finalize = .acquiring :=
  finalize_acquiring ((exclusive.balanced.waits .finalize).mp waits)

theorem Exclusive.policy_waits (exclusive : Exclusive s) {c : Fin n} (waits : .policy c ∈ s.finishSem.waiting) :
    s.policies c = .acquiring :=
  blocked_acquiring ((exclusive.balanced.waits (.policy c)).mp waits)

theorem launchMaster_ending : Ending clusters (launchMaster n) where
  exclusive := launchMaster_exclusive
  within _ := trivial
  set := by simp [launchMaster,GetFinalize.Past]
  found _ breaking := by cases breaking

theorem step_set (ending : Ending clusters s) {event : FinishEvent n} (steps : FinishSteps clusters s event next) :
    next.finish = true ↔ next.finalize.Past := by
  have set := ending.set
  have releases {left : FinishState n} (sem : left.finishSem = s.finishSem) (finalize : left.finalize = s.finalize)
      (finish : left.finish = s.finish) : left.release.finish = true ↔ left.release.finalize.Past := by
    rw [release_finish,finish]
    have waits : .finalize ∈ left.finishSem.waiting → left.finalize = .acquiring := by
      rw [sem,finalize]
      exact ending.exclusive.finalize_waits
    rcases release_finalize waits with ⟨same, _⟩ | ⟨acquiring, now, _⟩
    · rw [same,finalize,set]
    · rw [finalize] at acquiring
      rw [now,set,acquiring]
      exact Iff.rfl
  cases steps with
  | wakes c sleeping =>
    rw [acquire_finish,acquire_finalize]
    exact set
  | rounds c z scanning all => exact releases rfl rfl rfl
  | breaks c breaking => exact releases rfl rfl rfl
  | calls notifying =>
    rw [acquire_finish,set,notifying]
    unfold FinishState.acquire
    dsimp only
    split <;> exact Iff.rfl
  | sets setting => exact iff_of_true rfl trivial
  | leaves releasing =>
    have past : s.finish = true := set.mpr (by rw [releasing]; trivial)
    have waits : .finalize ∉ s.finishSem.waiting := by
      intro member
      have acquiring := ending.exclusive.finalize_waits member
      rw [releasing] at acquiring
      cases acquiring
    rw [release_finish]
    refine iff_of_true past ?_
    rcases release_finalize (s := s.setFinalize .returned) fun member => absurd member waits with
      ⟨same, _⟩ | ⟨acquiring, _⟩
    · rw [same]
      trivial
    · cases acquiring
  | _ => exact set

theorem setPolicy_found (found : ∀ c, s.policies c = .breaking → s.finish = true) (c : Fin n) (policy : Policy)
    (fine : policy = .breaking → s.finish = true) (d : Fin n)
    (breaking : (s.setPolicy c policy).policies d = .breaking) : (s.setPolicy c policy).finish = true := by
  by_cases same : d = c
  · subst same
    simp only [FinishState.setPolicy,Function.update_self] at breaking
    exact fine breaking
  · simp only [FinishState.setPolicy,Function.update_of_ne same] at breaking
    exact found d breaking

/-- A round ends early only for `finish`. -/
theorem step_found (found : ∀ c, s.policies c = .breaking → s.finish = true) {event : FinishEvent n}
    (steps : FinishSteps clusters s event next) (d : Fin n) (breaking : next.policies d = .breaking) :
    next.finish = true := by
  have acquires (p : Party n) (breaking : (s.acquire p).policies d = .breaking) : (s.acquire p).finish = true := by
    rw [acquire_finish]
    rcases acquire_policy s p d with same | ⟨_, testing | acquiring⟩
    · exact found d (same ▸ breaking)
    · cases testing.symm.trans breaking
    · cases acquiring.symm.trans breaking
  have releases (left : FinishState n) (before : left.policies d = .breaking → left.finish = true)
      (breaking : left.release.policies d = .breaking) : left.release.finish = true := by
    rw [release_finish]
    rcases release_policy left d with same | testing
    · exact before (same ▸ breaking)
    · cases testing.symm.trans breaking
  cases steps with
  | wakes c sleeping => exact acquires (.policy c) breaking
  | tests c testing =>
    refine setPolicy_found found c _ (fun is => ?_) d breaking
    split at is
    next set => exact set
    next => cases is
  | passes c z scanning more => exact setPolicy_found found c _ Policy.noConfusion d breaking
  | places c z placement scanning more => exact setPolicy_found found c _ Policy.noConfusion d breaking
  | migrates c z placement placing => exact setPolicy_found found c _ Policy.noConfusion d breaking
  | rounds c z scanning all => exact releases _ (setPolicy_found found c _ Policy.noConfusion d) breaking
  | breaks c breaking' => exact releases _ (setPolicy_found found c _ Policy.noConfusion d) breaking
  | calls notifying => exact acquires .finalize breaking
  | sets setting => rfl
  | leaves releasing => exact releases (s.setFinalize .returned) (found d) breaking

theorem step_ending (ending : Ending clusters s) {event : FinishEvent n}
    (taken : finishStep clusters s event = some next) : Ending clusters next :=
  ⟨step_exclusive ending.exclusive taken, step_within ending.within (finishStep_steps taken),
    step_set ending (finishStep_steps taken), step_found ending.found (finishStep_steps taken)⟩

/-- A policy that is at its test, or gets there before `get_finalize`, finds `finish` unset once more. -/
def FinishState.again (s : FinishState n) (c : Fin n) : Bool :=
  !s.finish && match s.policies c with
    | .testing => true
    | _ =>
      match s.finalize with
      | .acquiring => decide (s.finishSem.Ahead (.policy c) .finalize)
      | _ => false

/-- The steps a policy still makes, with `get_finalize` at the semaphore or past it. -/
def Policy.left (cluster : Cluster) (again : Bool) : Policy → Nat
  | .sleeping => 3
  | .acquiring => if again then 2 * cluster.numberOfInvolvedHost + 5 else 2
  | .testing => if again then 2 * cluster.numberOfInvolvedHost + 5 else 2
  | .scanning z => 2 * (cluster.endHost - z) + 4
  | .placing z _ => 2 * (cluster.endHost - z) + 3
  | .breaking => 1
  | .returned => 0

def GetFinalize.left : GetFinalize → Nat
  | .notifying => 3
  | .acquiring => 2
  | .setting => 2
  | .releasing => 1
  | .returned => 0

def FinishState.policyLeft (clusters : Fin n → Cluster) (s : FinishState n) (c : Fin n) : Nat :=
  (s.policies c).left (clusters c) (s.again c)

def FinishState.left (clusters : Fin n → Cluster) (s : FinishState n) : Nat :=
  ∑ c, s.policyLeft clusters c + s.finalize.left

theorem left_false_le (cluster : Cluster) (again : Bool) (policy : Policy) :
    policy.left cluster false ≤ policy.left cluster again := by
  cases policy with
  | acquiring =>
    simp only [Policy.left,Bool.false_eq_true,if_false]
    split <;> omega
  | testing =>
    simp only [Policy.left,Bool.false_eq_true,if_false]
    split <;> omega
  | _ => exact le_rfl

theorem again_set (set : s.finish = true) (c : Fin n) : s.again c = false := by
  simp [FinishState.again,set]

/-- Once `get_finalize` is there, whoever is blocked behind it finds `finish` set. -/
theorem again_behind {c : Fin n} (not_testing : s.policies c ≠ .testing)
    (behind : s.finalize = .acquiring → ¬ s.finishSem.Ahead (.policy c) .finalize) : s.again c = false := by
  unfold FinishState.again
  rw [Bool.and_eq_false_iff]
  right
  split
  next testing => exact absurd testing not_testing
  next =>
    split
    next acquiring => exact decide_eq_false (behind acquiring)
    next => rfl

/-- What `again` is read off. -/
theorem again_congr {c : Fin n} (policy : next.policies c = s.policies c) (finish : next.finish = s.finish)
    (finalize : next.finalize = s.finalize) (order : s.finalize = .acquiring →
      (next.finishSem.Ahead (.policy c) .finalize ↔ s.finishSem.Ahead (.policy c) .finalize)) :
    next.again c = s.again c := by
  unfold FinishState.again
  rw [policy,finish,finalize]
  cases is : s.finalize with
  | acquiring => simp only [order is]
  | _ => rfl

theorem policyLeft_congr {c : Fin n} (policy : next.policies c = s.policies c) (again : next.again c = s.again c) :
    next.policyLeft clusters c = s.policyLeft clusters c := by
  rw [FinishState.policyLeft,FinishState.policyLeft,policy,again]

/-- A policy that moves on does not change what the others have left. -/
theorem setPolicy_policyLeft (s : FinishState n) {c d : Fin n} (other : d ≠ c) (policy : Policy) :
    (s.setPolicy c policy).policyLeft clusters d = s.policyLeft clusters d := by
  have same : (s.setPolicy c policy).policies d = s.policies d := Function.update_of_ne other ..
  exact policyLeft_congr same (again_congr same rfl rfl fun _ => Iff.rfl)

theorem lowers_policy {c : Fin n} (own : next.policyLeft clusters c < s.policyLeft clusters c)
    (others : ∀ d, d ≠ c → next.policyLeft clusters d ≤ s.policyLeft clusters d)
    (finalize : next.finalize.left ≤ s.finalize.left) : next.left clusters < s.left clusters := by
  have sums : ∑ d, next.policyLeft clusters d < ∑ d, s.policyLeft clusters d := by
    refine Finset.sum_lt_sum (fun d _ => ?_) ⟨c, Finset.mem_univ c, own⟩
    by_cases same : d = c
    · exact same ▸ own.le
    · exact others d same
  unfold FinishState.left
  omega

theorem lowers_finalize (all : ∀ d, next.policyLeft clusters d ≤ s.policyLeft clusters d)
    (finalize : next.finalize.left < s.finalize.left) : next.left clusters < s.left clusters := by
  have sums := Finset.sum_le_sum fun d (_ : d ∈ Finset.univ) => all d
  unfold FinishState.left
  omega

/-- Whoever is let in, nobody has more left than before: one that was ahead of `get_finalize` was to test
`finish` unset, and now is about to. -/
theorem release_left (clusters : Fin n → Cluster) {s : FinishState n}
    (policies : ∀ d, .policy d ∈ s.finishSem.waiting → s.policies d = .acquiring)
    (finalize : .finalize ∈ s.finishSem.waiting → s.finalize = .acquiring)
    (waits : s.finish = false → s.finalize = .acquiring) :
    (∀ d, s.release.policyLeft clusters d ≤ s.policyLeft clusters d) ∧
      s.release.finalize.left ≤ s.finalize.left := by
  cases woken : s.finishSem.release.1 with
  | none =>
    have is : s.release = { s with finishSem := s.finishSem.release.2 } := by
      rw [FinishState.release,woken]
      rfl
    rw [is]
    refine ⟨fun d => le_of_eq (policyLeft_congr rfl (again_congr rfl rfl rfl fun _ => ?_)), le_rfl⟩
    rw [Semaphore.Ahead,Semaphore.Ahead,idle_waiting woken]
  | some p =>
    cases p with
    | policy e =>
      have is : s.release = { s with finishSem := s.finishSem.release.2 }.setPolicy e .testing := by
        rw [FinishState.release,woken]
        rfl
      rw [is]
      refine ⟨fun d => ?_, le_rfl⟩
      by_cases same : d = e
      · subst same
        have acquiring := policies d (woken_waiting woken)
        have testing : ({ s with finishSem := s.finishSem.release.2 }.setPolicy d .testing).policies d = .testing :=
          Function.update_self ..
        have again : s.again d = !s.finish := by
          unfold FinishState.again
          rw [acquiring]
          cases unset : s.finish with
          | true => rfl
          | false =>
            have first := ahead_woken (q := Party.finalize) woken (by simp)
            simp [waits unset,first]
        have tests : ({ s with finishSem := s.finishSem.release.2 }.setPolicy d .testing).again d = !s.finish := by
          unfold FinishState.again
          rw [testing]
          simp [FinishState.setPolicy]
        rw [FinishState.policyLeft,FinishState.policyLeft,testing,acquiring,again,tests]
        exact le_rfl
      · rw [setPolicy_policyLeft _ same]
        have other : Party.policy d ≠ .policy e := fun is => same (Party.policy.inj is)
        refine le_of_eq (policyLeft_congr rfl (again_congr rfl rfl rfl fun _ => ?_))
        exact ahead_release woken other (by simp)
    | finalize =>
      have is : s.release = { s with finishSem := s.finishSem.release.2 }.setFinalize .setting := by
        rw [FinishState.release,woken]
        rfl
      have acquiring := finalize (woken_waiting woken)
      rw [is]
      refine ⟨fun d => ?_, by rw [acquiring]; exact le_rfl⟩
      by_cases testing : s.policies d = .testing
      · have again : ({ s with finishSem := s.finishSem.release.2 }.setFinalize .setting).again d = s.again d := by
          simp [FinishState.again,FinishState.setFinalize,testing]
        exact le_of_eq (policyLeft_congr rfl again)
      · have behind : ({ s with finishSem := s.finishSem.release.2 }.setFinalize .setting).again d = false :=
          again_behind testing fun is => by cases is
        rw [FinishState.policyLeft,behind]
        exact left_false_le _ _ _

/-- `get_finalize` has called `MSG_sem_acquire`. -/
structure Called (clusters : Fin n → Cluster) (s : FinishState n) : Prop where
  ending : Ending clusters s
  called : s.finalize ≠ .notifying

theorem Called.waits (called : Called clusters s) (unset : s.finish = false) :
    s.finalize = .acquiring ∨ s.finalize = .setting := by
  have set := called.ending.set
  rw [unset] at set
  have there := called.called
  cases is : s.finalize with
  | notifying => exact absurd is there
  | acquiring => exact .inl rfl
  | setting => exact .inr rfl
  | releasing => simp [is,GetFinalize.Past] at set
  | returned => simp [is,GetFinalize.Past] at set

/-- While a policy is inside, `get_finalize` is not about to set `finish`. -/
theorem Called.waits_outside (called : Called clusters s) {c : Fin n} (inside : (s.policies c).standing = .inside)
    (unset : s.finish = false) : s.finalize = .acquiring := by
  rcases called.waits unset with acquiring | setting
  · exact acquiring
  · have other : s.standing .finalize = .inside := by
      simp only [FinishState.standing,setting,GetFinalize.standing]
    have first : s.standing (.policy c) = .inside := inside
    cases called.ending.exclusive.balanced.exclusive first other

/-- The two outcomes of a policy's call. -/
theorem acquire_policy_is (s : FinishState n) (c : Fin n) : ∃ policy,
    s.acquire (.policy c) = { s with finishSem := (s.finishSem.acquire (.policy c)).2 }.setPolicy c policy ∧
      (policy = .testing ∧ 0 < s.finishSem.value ∨ policy = .acquiring) := by
  by_cases open_now : 0 < s.finishSem.value
  · have granted : (s.finishSem.acquire (.policy c)).1 = true := by
      simp [Semaphore.acquire,open_now]
    refine ⟨.testing, ?_, .inl ⟨rfl, open_now⟩⟩
    rw [FinishState.acquire,granted]
    rfl
  · have refused : (s.finishSem.acquire (.policy c)).1 = false := by
      simp [Semaphore.acquire,open_now]
    refine ⟨.acquiring, ?_, .inr rfl⟩
    rw [FinishState.acquire,refused]
    rfl

theorem Called.queued (called : Called clusters s) (acquiring : s.finalize = .acquiring) :
    .finalize ∈ s.finishSem.waiting :=
  (called.ending.exclusive.balanced.waits .finalize).mpr (by
    simp only [FinishState.standing,acquiring,GetFinalize.standing])

/-- The semaphore is open only when `finish` has been set. -/
theorem Called.closed (called : Called clusters s) (open_now : 0 < s.finishSem.value) : s.finish = true := by
  have balanced := called.ending.exclusive.balanced
  by_contra not_set
  rcases called.waits (Bool.eq_false_iff.mpr not_set) with acquiring | setting
  · have zero := balanced.full (List.ne_nil_of_mem (called.queued acquiring))
    omega
  · have inside : Party.finalize ∈ insiders s.standing :=
      mem_insiders.mpr (by simp only [FinishState.standing,setting,GetFinalize.standing])
    have some_inside := Finset.card_pos.mpr ⟨_, inside⟩
    have count := balanced.count
    omega

/-- A policy that wakes up comes after `get_finalize`. -/
theorem wake_left (called : Called clusters s) {c : Fin n} (sleeping : s.policies c = .sleeping) :
    (s.acquire (.policy c)).left clusters < s.left clusters := by
  have order (d : Fin n) (acquiring : s.finalize = .acquiring) :
      (s.finishSem.acquire (.policy c)).2.Ahead (.policy d) .finalize ↔ s.finishSem.Ahead (.policy d) .finalize :=
    ahead_acquire (called.queued acquiring) _ _
  obtain ⟨policy, is, outcome⟩ := acquire_policy_is s c
  rw [is]
  refine lowers_policy (c := c) ?_ (fun d other => ?_) le_rfl
  · have now : ({ s with finishSem := (s.finishSem.acquire (.policy c)).2 }.setPolicy c policy).policies c = policy :=
      Function.update_self ..
    have quiet : ({ s with finishSem := (s.finishSem.acquire (.policy c)).2 }.setPolicy c policy).again c = false := by
      rcases outcome with ⟨rfl, open_now⟩ | rfl
      · refine again_set ?_ c
        exact called.closed open_now
      · have absent : .policy c ∉ s.finishSem.waiting := by
          rw [called.ending.exclusive.balanced.waits]
          simp [FinishState.standing,sleeping,Policy.standing]
        refine again_behind (by rw [now]; exact Policy.noConfusion) fun acquiring ahead => ?_
        have before := (order c acquiring).mp ahead
        have there := List.idxOf_lt_length_of_mem (called.queued acquiring)
        rw [Semaphore.Ahead,List.idxOf_eq_length absent] at before
        omega
    rw [FinishState.policyLeft,FinishState.policyLeft,sleeping,now,quiet]
    rcases outcome with ⟨rfl, _⟩ | rfl <;> exact Nat.lt_succ_self 2
  · rw [setPolicy_policyLeft _ other]
    exact le_of_eq (policyLeft_congr rfl (again_congr rfl rfl rfl (order d)))

/-- A policy that goes on by itself. -/
theorem setPolicy_left {c : Fin n} {policy : Policy}
    (less : policy.left (clusters c) ((s.setPolicy c policy).again c) < s.policyLeft clusters c) :
    (s.setPolicy c policy).left clusters < s.left clusters := by
  refine lowers_policy (c := c) ?_ (fun d other => (setPolicy_policyLeft s other policy).le) le_rfl
  have now : (s.setPolicy c policy).policies c = policy := Function.update_self ..
  rwa [FinishState.policyLeft,now]

/-- A policy that leaves the semaphore to the next. -/
theorem policyRelease_left (called : Called clusters s) {c : Fin n} (inside : (s.policies c).standing = .inside)
    {policy : Policy}
    (less : policy.left (clusters c) ((s.setPolicy c policy).again c) < s.policyLeft clusters c) :
    (s.setPolicy c policy).release.left clusters < s.left clusters := by
  have exclusive := called.ending.exclusive
  obtain ⟨no_more, finalize⟩ := release_left clusters (s := s.setPolicy c policy)
    (fun d waits => by
      have acquiring := exclusive.policy_waits waits
      have other : d ≠ c := by
        rintro rfl
        rw [acquiring] at inside
        cases inside
      simpa only [FinishState.setPolicy,Function.update_of_ne other] using acquiring)
    exclusive.finalize_waits (called.waits_outside inside)
  have goes_on := setPolicy_left less
  have sums := Finset.sum_le_sum fun d (_ : d ∈ Finset.univ) => no_more d
  unfold FinishState.left at goes_on ⊢
  omega

theorem step_left (called : Called clusters s) {event : FinishEvent n} (steps : FinishSteps clusters s event next) :
    next.left clusters < s.left clusters := by
  have within := called.ending.within
  cases steps with
  | wakes c sleeping => exact wake_left called sleeping
  | tests c testing =>
    apply setPolicy_left
    rw [FinishState.policyLeft,testing]
    cases set : s.finish with
    | true =>
      rw [again_set set]
      exact Nat.lt_succ_self 1
    | false =>
      have again : s.again c = true := by
        simp [FinishState.again,testing,set]
      rw [again]
      simp only [Policy.left,Cluster.endHost,Bool.false_eq_true,if_false,if_true]
      omega
  | passes c z scanning more =>
    apply setPolicy_left
    rw [FinishState.policyLeft,scanning]
    simp only [Policy.left]
    omega
  | places c z placement scanning more =>
    apply setPolicy_left
    rw [FinishState.policyLeft,scanning]
    simp only [Policy.left]
    omega
  | migrates c z placement placing =>
    have inside := within c
    rw [placing] at inside
    obtain ⟨_, more⟩ := inside
    apply setPolicy_left
    rw [FinishState.policyLeft,placing]
    simp only [Policy.left]
    omega
  | rounds c z scanning all =>
    apply policyRelease_left called (by rw [scanning]; rfl)
    rw [FinishState.policyLeft,scanning]
    simp only [Policy.left]
    omega
  | breaks c breaking =>
    apply policyRelease_left called (by rw [breaking]; rfl)
    rw [FinishState.policyLeft,breaking]
    exact Nat.one_pos
  | calls notifying => exact absurd notifying called.called
  | sets setting =>
    refine lowers_finalize (fun d => ?_) (by rw [setting]; exact Nat.lt_succ_self 1)
    rw [FinishState.policyLeft,again_set rfl]
    exact left_false_le _ _ _
  | leaves releasing =>
    have set : s.finish = true := called.ending.set.mpr (by rw [releasing]; trivial)
    have waits : .finalize ∉ s.finishSem.waiting := by
      intro member
      have acquiring := called.ending.exclusive.finalize_waits member
      rw [releasing] at acquiring
      cases acquiring
    obtain ⟨no_more, finalize⟩ := release_left clusters (s := s.setFinalize .returned)
      (fun d => called.ending.exclusive.policy_waits) (fun member => absurd member waits) fun unset => by
        rw [show s.finish = false from unset] at set
        cases set
    have same (d : Fin n) : (s.setFinalize .returned).policyLeft clusters d = s.policyLeft clusters d := by
      refine policyLeft_congr rfl ?_
      rw [again_set set,again_set (s := s.setFinalize .returned) set]
    refine lowers_finalize (fun d => (no_more d).trans (same d).le) ?_
    rw [releasing]
    exact Nat.lt_succ_of_le finalize

theorem step_called (called : Called clusters s) {event : FinishEvent n}
    (taken : finishStep clusters s event = some next) : Called clusters next := by
  have there := called.called
  refine ⟨step_ending called.ending taken, ?_⟩
  have releases {left : FinishState n} (goes_on : left.finalize ≠ .notifying)
      (waits : .finalize ∈ left.finishSem.waiting → left.finalize = .acquiring) :
      left.release.finalize ≠ .notifying := by
    rcases release_finalize waits with ⟨same, _⟩ | ⟨_, now, _⟩
    · rwa [same]
    · simp [now]
  have waits := called.ending.exclusive.finalize_waits
  cases finishStep_steps taken with
  | wakes c sleeping => rwa [acquire_finalize]
  | rounds c z scanning all => exact releases there waits
  | breaks c breaking => exact releases there waits
  | calls notifying => exact absurd notifying there
  | sets setting => exact GetFinalize.noConfusion
  | leaves releasing =>
    refine releases GetFinalize.noConfusion fun member => ?_
    have acquiring := waits member
    rw [releasing] at acquiring
    cases acquiring
  | _ => exact there

theorem called_descends (clusters : Fin n → Cluster) :
    Progress.Descends (finishStep clusters) (fun _ => true) (Called clusters) (FinishState.left clusters) where
  kept _ _ _ called taken := step_called called taken
  lowers _ _ _ called taken _ := step_left called (finishStep_steps taken)
  keeps _ _ _ _ _ counts := by cases counts

theorem Called.left_le (called : Called clusters s) :
    s.left clusters ≤ ∑ c, (2 * (clusters c).numberOfInvolvedHost + 5) + 2 := by
  have policies (c : Fin n) : s.policyLeft clusters c ≤ 2 * (clusters c).numberOfInvolvedHost + 5 := by
    have within := called.ending.within c
    unfold FinishState.policyLeft
    cases is : s.policies c with
    | scanning z =>
      rw [is] at within
      simp only [Policy.Within] at within
      simp only [Policy.left,Cluster.endHost]
      omega
    | placing z placement =>
      rw [is] at within
      simp only [Policy.Within] at within
      simp only [Policy.left,Cluster.endHost]
      omega
    | acquiring =>
      simp only [Policy.left]
      split <;> omega
    | testing =>
      simp only [Policy.left]
      split <;> omega
    | _ =>
      simp only [Policy.left]
      omega
  have finalize : s.finalize.left ≤ 2 := by
    have there := called.called
    cases is : s.finalize with
    | notifying => exact absurd is there
    | _ => decide
  exact Nat.add_le_add (Finset.sum_le_sum fun c _ => policies c) finalize

/-- Where nothing can go on, all have returned: whoever is blocked waits for one that can go on. -/
theorem stuck_returned (called : Called clusters s) (stuck : ∀ event, finishStep clusters s event = none) :
    (∀ c, s.policies c = .returned) ∧ s.finalize = .returned ∧ s.finishSem.value = 1 := by
  have balanced := called.ending.exclusive.balanced
  have nobody (p : Party n) : s.standing p ≠ .inside := by
    intro inside
    cases p with
    | policy c =>
      simp only [FinishState.standing] at inside
      cases is : s.policies c with
      | testing => simpa [finishStep,is] using stuck (.test c)
      | scanning z =>
        have pass := stuck (.pass c)
        have release := stuck (.release c)
        simp only [finishStep,is] at pass release
        split at pass
        next => contradiction
        next all => simp [all] at release
      | placing z placement => simpa [finishStep,is] using stuck (.migrated c)
      | breaking => simpa [finishStep,is] using stuck (.release c)
      | _ =>
        rw [is] at inside
        cases inside
    | finalize =>
      simp only [FinishState.standing] at inside
      cases is : s.finalize with
      | setting => simpa [finishStep,is] using stuck .setFinish
      | releasing => simpa [finishStep,is] using stuck .finalizeRelease
      | _ =>
        rw [is] at inside
        cases inside
  have value := balanced.free nobody
  have not_blocked (p : Party n) : s.standing p ≠ .blocked := by
    intro blocked
    have zero := balanced.full (List.ne_nil_of_mem ((balanced.waits p).mpr blocked))
    omega
  refine ⟨fun c => ?_, ?_, value⟩
  · have outside := nobody (.policy c)
    have free := not_blocked (.policy c)
    simp only [FinishState.standing] at outside free
    cases is : s.policies c with
    | returned => rfl
    | sleeping => simpa [finishStep,is] using stuck (.wake c)
    | acquiring => exact absurd (by rw [is]; rfl) free
    | _ => exact absurd (by rw [is]; rfl) outside
  · have outside := nobody .finalize
    have free := not_blocked .finalize
    have there := called.called
    simp only [FinishState.standing] at outside free
    cases is : s.finalize with
    | returned => rfl
    | notifying => exact absurd is there
    | acquiring => exact absurd (by rw [is]; rfl) free
    | _ => exact absurd (by rw [is]; rfl) outside

theorem run_ending {events : List (FinishEvent n)}
    (reached : Runs.run (finishStep clusters) (launchMaster n) events = some s) : Ending clusters s :=
  Runs.run_invariant (Ending clusters) (fun _ _ _ ending taken => step_ending ending taken) launchMaster_ending reached

/-- Whatever rounds the host load balancers are in when `get_finalize` comes to the semaphore, only so many steps
are left to all of them, in any order; and when none of them can go on, each has returned. -/
theorem balancers_end {past rest : List (FinishEvent n)} {final : FinishState n}
    (reached : Runs.run (finishStep clusters) (launchMaster n) (past ++ .finalizeAcquire :: rest) = some final) :
    rest.length ≤ ∑ c, (2 * (clusters c).numberOfInvolvedHost + 5) + 2 ∧
      ((∀ event, finishStep clusters final event = none) ↔
        (∀ c, final.policies c = .returned) ∧ final.finalize = .returned) := by
  obtain ⟨before, first, later⟩ := Runs.run_append_some reached
  obtain ⟨mid, calls, later⟩ := Option.bind_eq_some_iff.mp later
  have ending := step_ending (run_ending first) calls
  have called : Called clusters mid := by
    refine ⟨ending, ?_⟩
    cases finishStep_steps calls with
    | calls notifying =>
      unfold FinishState.acquire
      dsimp only
      split <;> exact GetFinalize.noConfusion
  have bound := (called_descends clusters).run_le called later
  have most := called.left_le
  have steps : rest.countP (fun _ => true) = rest.length := by simp
  have goes_on : Called clusters final :=
    Runs.run_invariant (Called clusters) (fun _ _ _ good taken => step_called good taken) called later
  refine ⟨by omega, fun stuck => ?_, fun ⟨policies, finalize⟩ event => ?_⟩
  · obtain ⟨policies, finalize, _⟩ := stuck_returned goes_on stuck
    exact ⟨policies, finalize⟩
  · by_contra able
    obtain ⟨next, taken⟩ := Option.ne_none_iff_exists'.mp able
    cases finishStep_steps taken <;> simp_all

/-- The cluster of a simulation that has one. -/
def onlyCluster : Fin 1 := ⟨0, Nat.zero_lt_one⟩

/-- A round that is about to test `finish` is still made, with a migration, and another test after it. -/
def slowestEnd : List (FinishEvent 1) :=
  [.test onlyCluster, .place onlyCluster ⟨0, 0⟩, .migrated onlyCluster, .release onlyCluster, .setFinish,
    .wake onlyCluster, .finalizeRelease, .test onlyCluster, .release onlyCluster]

/-- No more steps were possible. -/
theorem balancers_end_slowly : ∃ final,
    Runs.run (finishStep fun _ => oneHost) (launchMaster 1) ([.wake 0] ++ .finalizeAcquire :: slowestEnd) =
        some final ∧
      slowestEnd.length = ∑ _c : Fin 1, (2 * oneHost.numberOfInvolvedHost + 5) + 2 ∧
      ∀ event, finishStep (fun _ => oneHost) final event = none := by
  have ends : (Runs.run (finishStep fun _ => oneHost) (launchMaster 1)
      ([.wake 0] ++ .finalizeAcquire :: slowestEnd)).map (fun s => (s.policies 0, s.finalize)) =
        some (.returned, .returned) := rfl
  obtain ⟨final, reached, same⟩ := Option.map_eq_some_iff.mp ends
  obtain ⟨policy, finalize⟩ := Prod.mk.inj same
  refine ⟨final, reached, rfl, (balancers_end reached).2.mpr ⟨fun c => ?_, finalize⟩⟩
  rw [Fin.fin_one_eq_zero c]
  exact policy

end Hpvc.HostBalancer
