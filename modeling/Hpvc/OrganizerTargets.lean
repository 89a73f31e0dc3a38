import Hpvc.OrganizerAccounting
import Hpvc.OrganizerWork

/-! The targets of the messages that `process_task` sends, in 32-bit integers. The sum of which
`GetNextTargetMailBox` takes the remainder may wrap around to a negative number. -/
namespace Hpvc.Organizer

/-- The value of an `int` expression. -/
def wrap (z : Int) : Int := asInt (asUnsigned z)

/-- `GetNextTargetMailBox` -/
def getNextTargetMailBox32 (mailBoxID processSequenceNumber nuVm : Int) : Int :=
  (wrap (mailBoxID + processSequenceNumber)).tmod nuVm

/-- `sendTurn` with a product and a sum of `int`s and an `unsigned int` target. -/
def sendTurn32 (c : WorkParams) (w : Work) : Work :=
  if w.n < c.comm ∧ w.i < c.iterations then
    let targetMailbox :=
      if w.i.tmod 2 ≠ 0 then w.targetMailbox
      else asUnsigned
        (getNextTargetMailBox32 (wrap w.targetMailbox) (wrap (c.processSequence * w.n)) c.numberOfVMs)
    { i := w.i + 1
      p := w.p
      n := w.n + 1
      targetMailbox := targetMailbox
      tasks := w.tasks ++ [.send targetMailbox] }
  else w

/-- The state after `k` turns. -/
def workAfter (c : WorkParams) (targetMailbox : Int) (k : Nat) : Work :=
  WhileLoop.after (fun w : Work => decide (w.i < c.iterations)) (fun w => sendTurn32 c (computeTurn c w)) k
    ⟨0, 0, 0, targetMailbox, []⟩

/-- A VM, an index of `vm_list` -/
def IsVm (numberOfVMs : Nat) (target : Int) : Prop := 0 ≤ target ∧ target < numberOfVMs

/-- The target, and those of all messages so far, are VMs. -/
structure ValidTargets (numberOfVMs : Nat) (w : Work) : Prop where
  current : IsVm numberOfVMs w.targetMailbox
  sent : ∀ target, .send target ∈ w.tasks → IsVm numberOfVMs target

/-- A turn that computes a target does so from a sum that is an `int` up to multiples of 2^32, or from
one whose negative value the number of VMs divides. -/
def SumFits (c : WorkParams) (w : Work) : Prop :=
  (computeTurn c w).n < c.comm → (computeTurn c w).i < c.iterations → (computeTurn c w).i % 2 = 0 →
    (w.targetMailbox + c.processSequence * w.n) % 2 ^ 32 < 2 ^ 31 ∨
      (c.numberOfVMs : Int) ∣ 2 ^ 32 - (w.targetMailbox + c.processSequence * w.n) % 2 ^ 32

theorem wrap_eq (z : Int) : wrap z = if z % 2 ^ 32 < 2 ^ 31 then z % 2 ^ 32 else z % 2 ^ 32 - 2 ^ 32 := by
  have nonneg : 0 ≤ z % 2 ^ 32 := Int.emod_nonneg z (by decide)
  rw [wrap,asInt,asUnsigned]
  split <;> split <;> omega

theorem wrap_add (a b : Int) : wrap (wrap a + wrap b) = wrap (a + b) := by
  have congruent (z : Int) : wrap z % 2 ^ 32 = z % 2 ^ 32 := by
    rw [wrap_eq]
    split
    · exact Int.emod_emod_of_dvd z (Int.dvd_refl _)
    · omega
  rw [wrap_eq (wrap a + wrap b),wrap_eq (a + b),Int.add_emod,congruent,congruent,← Int.add_emod]

/-- The remainder is a VM unless the sum is negative and leaves one. -/
theorem getNextTargetMailBox32_iff {numberOfVMs : Nat} (some_vm : 1 ≤ numberOfVMs) (int : numberOfVMs < 2 ^ 31)
    (target product : Int) :
    IsVm numberOfVMs (asUnsigned (getNextTargetMailBox32 (wrap target) (wrap product) numberOfVMs)) ↔
      (target + product) % 2 ^ 32 < 2 ^ 31 ∨
        (numberOfVMs : Int) ∣ 2 ^ 32 - (target + product) % 2 ^ 32 := by
  rw [getNextTargetMailBox32,wrap_add,wrap_eq]
  generalize hs : (target + product) % 2 ^ 32 = s
  have low : 0 ≤ s := hs ▸ Int.emod_nonneg _ (by decide)
  have high : s < 2 ^ 32 := hs ▸ Int.emod_lt_of_pos _ (by decide)
  have positive : (0 : Int) < numberOfVMs := by exact_mod_cast some_vm
  split
  next fits =>
    refine iff_of_true ?_ (.inl fits)
    have nonneg := Int.tmod_nonneg (numberOfVMs : Int) low
    have less := Int.tmod_lt_of_pos s positive
    constructor <;> rw [asUnsigned] <;> omega
  next negative =>
    have back : s - 2 ^ 32 = -(2 ^ 32 - s) := by ring
    rw [or_iff_right negative,Int.dvd_iff_tmod_eq_zero,back,Int.neg_tmod]
    have nonneg := Int.tmod_nonneg (numberOfVMs : Int) (by omega : 0 ≤ 2 ^ 32 - s)
    have less := Int.tmod_lt_of_pos (2 ^ 32 - s) positive
    generalize (2 ^ 32 - s).tmod numberOfVMs = left at *
    unfold IsVm asUnsigned
    omega

theorem computeTurn_target (c : WorkParams) (w : Work) :
    (computeTurn c w).targetMailbox = w.targetMailbox ∧ (computeTurn c w).n = w.n ∧
      ∀ target, .send target ∈ (computeTurn c w).tasks ↔ .send target ∈ w.tasks := by
  unfold computeTurn
  split
  · exact ⟨rfl, rfl, fun target => by simp⟩
  · exact ⟨rfl, rfl, fun target => Iff.rfl⟩

/-- A turn keeps the targets valid exactly if its sum fits. -/
theorem turn_valid_iff {c : WorkParams} {w : Work} (some_vm : 1 ≤ c.numberOfVMs)
    (int : c.numberOfVMs < 2 ^ 31) (valid : ValidTargets c.numberOfVMs w) :
    ValidTargets c.numberOfVMs (sendTurn32 c (computeTurn c w)) ↔ SumFits c w := by
  obtain ⟨target, n, tasks⟩ := computeTurn_target c w
  have computed : ValidTargets c.numberOfVMs (computeTurn c w) :=
    ⟨target ▸ valid.current, fun t sent => valid.sent t ((tasks t).mp sent)⟩
  have appended (v : Work) (t : Int) (i p n : Int) (old : ValidTargets c.numberOfVMs v) :
      ValidTargets c.numberOfVMs ⟨i, p, n, t, v.tasks ++ [.send t]⟩ ↔ IsVm c.numberOfVMs t := by
    refine ⟨fun new => new.current, fun isVm => ⟨isVm, fun other sent => ?_⟩⟩
    rcases List.mem_append.mp sent with earlier | now
    · exact old.sent other earlier
    · obtain rfl : other = t := by simpa using now
      exact isVm
  unfold SumFits
  rw [← getNextTargetMailBox32_iff some_vm int,← target,← n]
  generalize computeTurn c w = v at *
  unfold sendTurn32
  have even : v.i.tmod 2 = 0 ↔ v.i % 2 = 0 := by
    rw [← Int.dvd_iff_tmod_eq_zero,Int.dvd_iff_emod_eq_zero]
  split
  next sends =>
    rw [appended v _ _ _ _ computed,if_congr (not_congr even) rfl rfl]
    split
    next odd => exact iff_of_true computed.current fun _ _ zero => absurd zero odd
    next even =>
      have even := not_not.mp even
      exact ⟨fun isVm _ _ _ => isVm, fun fits => fits sends.1 sends.2 even⟩
  next rests => exact iff_of_true computed fun more inside => absurd ⟨more, inside⟩ rests

/-- Without a wrap it is the target over the integers. -/
theorem getNextTargetMailBox32_small {numberOfVMs target product : Int} (some_vm : 0 < numberOfVMs)
    (low : 0 ≤ target + product) (high : target + product < 2 ^ 31) :
    asUnsigned (getNextTargetMailBox32 (wrap target) (wrap product) numberOfVMs) =
      getNextTargetMailBox target product numberOfVMs := by
  have residue : (target + product) % 2 ^ 32 = target + product := Int.emod_eq_of_lt low (by omega)
  rw [getNextTargetMailBox32,wrap_add,wrap_eq,residue,if_pos high,getNextTargetMailBox]
  have nonneg := Int.tmod_nonneg numberOfVMs low
  have less : (target + product).tmod numberOfVMs ≤ target + product := by
    have quotient := Int.mul_nonneg some_vm.le (Int.ediv_nonneg low some_vm.le)
    rw [Int.tmod_eq_emod_of_nonneg low,Int.emod_def]
    omega
  rw [asUnsigned]
  omega

/-- The targets are VMs and the counters count. -/
structure WorkSound (c : WorkParams) (w : Work) : Prop where
  counted : Counted c w
  nonneg : 0 ≤ w.n
  valid : ValidTargets c.numberOfVMs w

theorem sum_small {c : WorkParams} {target n : Int} (sequence : 0 ≤ c.processSequence)
    (small : c.numberOfVMs + c.processSequence * c.comm ≤ 2 ^ 31) (isVm : IsVm c.numberOfVMs target)
    (nonneg : 0 ≤ n) (more : n < c.comm) :
    0 ≤ target + c.processSequence * n ∧ target + c.processSequence * n < 2 ^ 31 := by
  have product := Int.mul_nonneg sequence nonneg
  have most := Int.mul_le_mul_of_nonneg_left more.le sequence
  have low := isVm.1
  have high := isVm.2
  omega

theorem fits_small {c : WorkParams} {w : Work} (sequence : 0 ≤ c.processSequence)
    (small : c.numberOfVMs + c.processSequence * c.comm ≤ 2 ^ 31) (sound : WorkSound c w) : SumFits c w := by
  intro more _ _
  rw [(computeTurn_target c w).2.1] at more
  obtain ⟨low, high⟩ := sum_small sequence small sound.valid.current sound.nonneg more
  left
  omega

section Small
variable {c : WorkParams} (some_vm : 1 ≤ c.numberOfVMs) (int : c.numberOfVMs < 2 ^ 31)
  (sequence : 0 ≤ c.processSequence) (small : c.numberOfVMs + c.processSequence * c.comm ≤ 2 ^ 31)
include some_vm int sequence small

/-- Below 2^31 a turn is one over the integers. -/
theorem turn_sound {w : Work} (sound : WorkSound c w) (goes : w.i < c.iterations) :
    sendTurn32 c (computeTurn c w) = sendTurn c (computeTurn c w) ∧ WorkSound c (sendTurn c (computeTurn c w)) := by
  obtain ⟨counted, nonneg, valid⟩ := sound
  obtain ⟨target, n, -⟩ := computeTurn_target c w
  have next := (turn_counted counted goes).1
  have kept := (turn_valid_iff some_vm int valid).mpr (fits_small sequence small ⟨counted, nonneg, valid⟩)
  have same : sendTurn32 c (computeTurn c w) = sendTurn c (computeTurn c w) := by
    rw [sendTurn32,sendTurn,target,n]
    split
    next sends =>
      obtain ⟨low, high⟩ := sum_small sequence small valid.current nonneg sends.1
      have exact_target := getNextTargetMailBox32_small (Int.natCast_pos.mpr some_vm) low high
      rw [exact_target]
    next rests => rfl
  have still : 0 ≤ (sendTurn c (computeTurn c w)).n := by
    rcases sendTurn_cases c (computeTurn c w) with ⟨-, rests⟩ | ⟨-, -, more, -⟩
    · rw [rests,n]
      exact nonneg
    · omega
  exact ⟨same, next, still, same ▸ kept⟩

end Small

/-- As long as no sum can pass 2^31, the loop is the one over the integers, and all targets are VMs. -/
theorem workAfter_small {c : WorkParams} {targetMailbox : Int} (some_vm : 1 ≤ c.numberOfVMs)
    (int : c.numberOfVMs < 2 ^ 31) (start : IsVm c.numberOfVMs targetMailbox) (iterations : 0 ≤ c.iterations)
    (comp : 0 ≤ c.comp) (comm : 0 ≤ c.comm) (sequence : 0 ≤ c.processSequence)
    (small : c.numberOfVMs + c.processSequence * c.comm ≤ 2 ^ 31) (k : Nat) :
    workAfter c targetMailbox k = WhileLoop.after (fun w : Work => decide (w.i < c.iterations))
      (fun w => sendTurn c (computeTurn c w)) k ⟨0, 0, 0, targetMailbox, []⟩ ∧
      WorkSound c (workAfter c targetMailbox k) := by
  have initial : WorkSound c ⟨0, 0, 0, targetMailbox, []⟩ :=
    ⟨⟨rfl, rfl, comp, comm, iterations⟩, Int.le_refl 0, start, fun _ sent => absurd sent List.not_mem_nil⟩
  have turn (w : Work) (sound : WorkSound c w) (goes : decide (w.i < c.iterations) = true) :=
    turn_sound some_vm int sequence small sound (by simpa using goes)
  have exact_run := WhileLoop.after_congr (WorkSound c) (fun w sound goes => (turn w sound goes).2)
    (fun w sound goes => (turn w sound goes).1) initial k
  refine ⟨exact_run, ?_⟩
  rw [workAfter,exact_run]
  exact WhileLoop.after_invariant (WorkSound c) (fun w sound goes => (turn w sound goes).2) initial k

/-- In a run of the loop, all targets are VMs exactly if every turn that computes one does so from a sum
that fits. -/
theorem targets_valid_iff {c : WorkParams} {targetMailbox : Int} (some_vm : 1 ≤ c.numberOfVMs)
    (int : c.numberOfVMs < 2 ^ 31) (start : IsVm c.numberOfVMs targetMailbox) :
    (∀ k, ValidTargets c.numberOfVMs (workAfter c targetMailbox k)) ↔
      ∀ k, (workAfter c targetMailbox k).i < c.iterations → SumFits c (workAfter c targetMailbox k) := by
  refine (WhileLoop.always_iff (fun w valid _ => turn_valid_iff some_vm int valid)
    ⟨start, fun _ sent => absurd sent List.not_mem_nil⟩).trans (forall_congr' fun k => ?_)
  rw [decide_eq_true_eq]
  rfl

/-- Nine VMs and the default ratio, and the process with sequence number 7. -/
theorem targets_valid_nine : workParams 9 (1 / 5) 7 = ⟨9, 5, 1, 4, 7⟩ ∧
    ∀ k, ValidTargets 9 (workAfter ⟨9, 5, 1, 4, 7⟩ 2 k) := by
  have start : IsVm 9 2 := ⟨by decide, by decide⟩
  refine ⟨by decide +kernel, ?_⟩
  refine (targets_valid_iff (c := ⟨9, 5, 1, 4, 7⟩) (by decide) (by decide) start).mpr fun k _ => ?_
  have sound := workAfter_small (c := ⟨9, 5, 1, 4, 7⟩) (by decide) (by decide) start (by decide) (by decide)
    (by decide) (by decide) (by decide) k
  exact fits_small (by decide) (by decide) sound.2

/-- Five VMs, no computation, and process 2^30: the third message has no mailbox. -/
theorem target_invalid : workParams 5 0 (2 ^ 30) = ⟨5, 3, 0, 3, 2 ^ 30⟩ ∧
    (workAfter ⟨5, 3, 0, 3, 2 ^ 30⟩ 0 3).targetMailbox = 4294967293 ∧
    ¬ ValidTargets 5 (workAfter (workParams 5 0 (2 ^ 30)) 0 3) := by
  have counts : workParams 5 0 (2 ^ 30) = ⟨5, 3, 0, 3, 2 ^ 30⟩ := by decide +kernel
  have third : (workAfter ⟨5, 3, 0, 3, 2 ^ 30⟩ 0 3).targetMailbox = 4294967293 := by decide +kernel
  refine ⟨counts, third, fun valid => ?_⟩
  have high := valid.current.2
  rw [counts,third] at high
  omega

end Hpvc.Organizer
