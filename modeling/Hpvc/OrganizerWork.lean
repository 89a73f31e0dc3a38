import Hpvc.Library.Rounding
import Hpvc.Library.WhileLoop
import Hpvc.OrganizerRound
import Mathlib.Algebra.Order.Field.Rat
import Mathlib.Data.Rat.Floor
import Mathlib.Tactic.Linarith
import Mathlib.Tactic.NormNum
import Mathlib.Tactic.Positivity

/-! The work loop of `process_task`, with the task counts that `main` derives from the
number of VMs and the ratio of computation to communication. -/
namespace Hpvc.Organizer

/-- `NUMBER_OF_VMS * ITERATION_PER_PROCESS_RATIO`, the ratio being 0.6 -/
def iterationPerProcess (numberOfVMs : Nat) : Int := Truncate.toInt ((numberOfVMs : ℚ) * (3 / 5))

def compTaskSize (compPerComm : ℚ) (iterations : Int) : Int := Truncate.toInt (compPerComm * iterations)

/-- The ratio itself is subtracted, not the number of computation tasks. -/
def commTaskSize (compPerComm : ℚ) (iterations : Int) : Int := Truncate.toInt (iterations - compPerComm)

def getNextTargetMailBox (mailBoxID processSequenceNumber nuVm : Int) : Int :=
  (mailBoxID + processSequenceNumber).tmod nuVm

inductive Task where
  | execute
  | send (targetMailbox : Int)

/-- The counters of the loop, the current target and the tasks run so far. -/
structure Work where
  i : Int
  p : Int
  n : Int
  targetMailbox : Int
  tasks : List Task

/-- What a process finds in the globals and among its arguments. -/
structure WorkParams where
  numberOfVMs : Nat
  iterations : Int
  comp : Int
  comm : Int
  processSequence : Int
  deriving DecidableEq

/-- The values of the globals that `main` sets. -/
def workParams (numberOfVMs : Nat) (compPerComm : ℚ) (processSequence : Int) : WorkParams where
  numberOfVMs := numberOfVMs
  iterations := iterationPerProcess numberOfVMs
  comp := compTaskSize compPerComm (iterationPerProcess numberOfVMs)
  comm := commTaskSize compPerComm (iterationPerProcess numberOfVMs)
  processSequence := processSequence

def computeTurn (c : WorkParams) (w : Work) : Work :=
  if w.p < c.comp then { w with p := w.p + 1, i := w.i + 1, tasks := w.tasks ++ [.execute] } else w

def sendTurn (c : WorkParams) (w : Work) : Work :=
  if w.n < c.comm ∧ w.i < c.iterations then
    let targetMailbox :=
      if w.i.tmod 2 ≠ 0 then w.targetMailbox
      else getNextTargetMailBox w.targetMailbox (c.processSequence * w.n) c.numberOfVMs
    { i := w.i + 1
      p := w.p
      n := w.n + 1
      targetMailbox := targetMailbox
      tasks := w.tasks ++ [.send targetMailbox] }
  else w

/-- `while (i < ITERATION_PER_PROCESS)`: it ends in a final state. -/
def WorkEnds (c : WorkParams) (targetMailbox : Int) (final : Work) : Prop :=
  WhileLoop.Ends (fun w : Work => decide (w.i < c.iterations)) (fun w => sendTurn c (computeTurn c w))
    ⟨0, 0, 0, targetMailbox, []⟩ final

/-- The counters add up, and no cap is passed. -/
structure Counted (c : WorkParams) (w : Work) : Prop where
  sum : w.i = w.p + w.n
  tasks : (w.tasks.length : Int) = w.i
  comp : w.p ≤ c.comp
  comm : w.n ≤ c.comm
  iterations : w.i ≤ c.iterations

/-- One turn: it advances `i`, unless both caps are reached. -/
theorem turn_counted {c : WorkParams} {w : Work} (counted : Counted c w) (goes : w.i < c.iterations) :
    Counted c (sendTurn c (computeTurn c w)) ∧
      (w.p < c.comp ∨ w.n < c.comm → w.i < (sendTurn c (computeTurn c w)).i) := by
  obtain ⟨sum, tasks, comp, comm, iterations⟩ := counted
  have computed : Counted c (computeTurn c w) ∧
      (computeTurn c w).i = w.i + (if w.p < c.comp then 1 else 0) ∧ (computeTurn c w).n = w.n := by
    unfold computeTurn
    split
    · refine ⟨⟨?_, ?_, ?_, comm, ?_⟩, rfl, rfl⟩ <;> simp <;> omega
    · exact ⟨⟨sum, tasks, comp, comm, iterations⟩, by simp, rfl⟩
  obtain ⟨⟨sum', tasks', comp', comm', iterations'⟩, ahead, same⟩ := computed
  generalize computeTurn c w = v at *
  unfold sendTurn
  split
  · refine ⟨⟨?_, ?_, comp', ?_, ?_⟩, fun _ => ?_⟩ <;> simp <;> split at ahead <;> omega
  · refine ⟨⟨sum', tasks', comp', comm', iterations'⟩, fun _ => ?_⟩
    split at ahead <;> omega

/-- With fewer tasks allowed than the loop is to run, it runs on without any. -/
theorem work_stuck {c : WorkParams} (targetMailbox : Int) (comp : 0 ≤ c.comp) (comm : 0 ≤ c.comm)
    (short : c.comp + c.comm < c.iterations) (final : Work) : ¬ WorkEnds c targetMailbox final := by
  intro ends
  refine ends.false_of_stuck (Counted c) (fun w counted goes => ?_) (fun w counted => ?_)
    ⟨rfl, rfl, comp, comm, by simp; omega⟩
  · exact (turn_counted counted (by simpa using goes)).1
  · have := counted.sum
    have := counted.comp
    have := counted.comm
    simp only [decide_eq_true_eq]
    omega

/-- The loop ends exactly if the two caps allow as many tasks as it is to run. -/
theorem work_ends_iff {c : WorkParams} (targetMailbox : Int) (iterations : 0 ≤ c.iterations)
    (comp : 0 ≤ c.comp) (comm : 0 ≤ c.comm) :
    (∃ final, WorkEnds c targetMailbox final ∧ (final.tasks.length : Int) = c.iterations) ↔
      c.iterations ≤ c.comp + c.comm := by
  have initial : Counted c ⟨0, 0, 0, targetMailbox, []⟩ := ⟨rfl, rfl, comp, comm, iterations⟩
  constructor
  · rintro ⟨final, ends, _⟩
    by_contra short
    exact work_stuck targetMailbox comp comm (by omega) final ends
  · intro enough
    obtain ⟨final, ends⟩ := WhileLoop.ends_of_measure (fun w : Work => decide (w.i < c.iterations))
      (fun w => sendTurn c (computeTurn c w)) (Counted c) (fun w => (c.iterations - w.i).toNat)
      (fun w counted goes => by
        have goes : w.i < c.iterations := by simpa using goes
        obtain ⟨next, advances⟩ := turn_counted counted goes
        have := counted.sum
        have := advances (by omega)
        exact ⟨next, by omega⟩) initial
    obtain ⟨counted, stop⟩ := ends.invariant (Counted c) (fun w counted goes =>
      (turn_counted counted (by simpa using goes)).1) initial
    refine ⟨final, ends, ?_⟩
    have := counted.tasks
    have := counted.iterations
    simp only [decide_eq_false_iff_not] at stop
    omega

theorem toInt_neg (q : ℚ) : Truncate.toInt (-q) = -Truncate.toInt q := by
  change (-q).num.tdiv (-q).den = -q.num.tdiv q.den
  rw [Rat.num_neg_eq_neg_num,Rat.den_neg_eq_den,Int.neg_tdiv]

theorem iterationPerProcess_eq (n : Nat) : iterationPerProcess n = (3 * n / 5 : Nat) := by
  have quotient : (n : ℚ) * (3 / 5) = ((3 * n : Nat) : ℚ) / ((5 : Nat) : ℚ) := by push_cast; ring
  rw [iterationPerProcess,toInt_of_nonneg (by positivity),quotient]
  exact_mod_cast Rat.floor_natCast_div_natCast (3 * n) 5

theorem commTaskSize_zero (k : Nat) : commTaskSize 0 k = k := by
  have nonneg : (0 : ℚ) ≤ ((k : Int) : ℚ) - 0 := by simp
  rw [commTaskSize,toInt_of_nonneg nonneg]
  simp

/-- With a ratio between 0 and 1, `main` allows one send less than the iterations. -/
theorem commTaskSize_eq {ρ : ℚ} (positive : 0 < ρ) (below : ρ < 1) (k : Nat) :
    commTaskSize ρ k = (k - 1 : Nat) := by
  rcases Nat.eq_zero_or_pos k with rfl | some_iteration
  · have fraction : ⌊ρ⌋ = 0 := Int.floor_eq_iff.mpr ⟨by simpa using positive.le, by simpa using below⟩
    have negative : ((0 : Nat) : Int) - ρ = -ρ := by simp
    rw [commTaskSize,negative,toInt_neg,toInt_of_nonneg positive.le,fraction]
    rfl
  · have one_less : ((k - 1 : Nat) : ℚ) = k - 1 := by push_cast [Nat.cast_sub some_iteration]; rfl
    have at_least : (1 : ℚ) ≤ k := by exact_mod_cast some_iteration
    rw [commTaskSize,toInt_of_nonneg (by push_cast; linarith),Int.floor_eq_iff]
    push_cast
    constructor <;> linarith

theorem compTaskSize_eq {ρ : ℚ} (nonneg : 0 ≤ ρ) (k : Nat) : compTaskSize ρ k = ⌊ρ * k⌋ :=
  toInt_of_nonneg (by simpa using mul_nonneg nonneg (Nat.cast_nonneg k))

theorem compTaskSize_nonneg {ρ : ℚ} (nonneg : 0 ≤ ρ) (k : Nat) : 0 ≤ compTaskSize ρ k :=
  compTaskSize_eq nonneg k ▸ Int.floor_nonneg.mpr (mul_nonneg nonneg (Nat.cast_nonneg k))

theorem commTaskSize_nonneg {ρ : ℚ} (nonneg : 0 ≤ ρ) (below : ρ < 1) (k : Nat) :
    0 ≤ commTaskSize ρ k := by
  rcases nonneg.eq_or_lt with rfl | positive
  · rw [commTaskSize_zero]; omega
  · rw [commTaskSize_eq positive below]; omega

/-- For every number of VMs and every ratio in [0, 1): the loop ends, after exactly the
iterations it is to run, if and only if there are no iterations, no computation is
wanted, or at least one computation task is left after rounding. -/
theorem process_task_ends_iff (numberOfVMs : Nat) (compPerComm : ℚ) (processSequence targetMailbox : Int)
    (some_vm : 1 ≤ numberOfVMs) (nonneg : 0 ≤ compPerComm) (below : compPerComm < 1) :
    (∃ final, WorkEnds (workParams numberOfVMs compPerComm processSequence) targetMailbox final ∧
        (final.tasks.length : Int) = iterationPerProcess numberOfVMs) ↔
      numberOfVMs = 1 ∨ compPerComm = 0 ∨ 1 ≤ compPerComm * (3 * numberOfVMs / 5 : Nat) := by
  have iterations := iterationPerProcess_eq numberOfVMs
  have none_iff : 3 * numberOfVMs / 5 = 0 ↔ numberOfVMs = 1 := by omega
  rw [← none_iff]
  generalize 3 * numberOfVMs / 5 = k at *
  have comp_positive : 1 ≤ compTaskSize compPerComm k ↔ 1 ≤ compPerComm * k := by
    rw [compTaskSize_eq nonneg,Int.le_floor]
    simp
  have comp_nonneg := compTaskSize_nonneg nonneg k
  have comm_nonneg := commTaskSize_nonneg nonneg below k
  have ends := work_ends_iff (c := workParams numberOfVMs compPerComm processSequence) targetMailbox
    (by simp [workParams,iterations]) (by simpa [workParams,iterations] using comp_nonneg)
    (by simpa [workParams,iterations] using comm_nonneg)
  simp only [workParams] at ends ⊢
  rw [ends,iterations]
  rcases nonneg.eq_or_lt with rfl | positive
  · rw [commTaskSize_zero]
    refine iff_of_true (by omega) (.inr (.inl rfl))
  · rw [commTaskSize_eq positive below,← comp_positive]
    simp only [positive.ne',false_or]
    omega

/-- Five VMs and the default ratio 0.2: three iterations, but no computation and only two
sends are allowed. -/
theorem process_task_hangs : ¬ ∃ final, WorkEnds (workParams 5 (1 / 5) 0) 0 final := by
  rintro ⟨final, ends⟩
  have counts : workParams 5 (1 / 5) 0 = ⟨5, 3, 0, 2, 0⟩ := by decide +kernel
  rw [counts] at ends
  exact work_stuck 0 (by decide) (by decide) (by decide) final ends

theorem process_task_ends_nine :
    ∃ final, WorkEnds (workParams 9 (1 / 5) 0) 0 final ∧
      (final.tasks.length : Int) = iterationPerProcess 9 :=
  (process_task_ends_iff 9 (1 / 5) 0 0 (by decide) (by norm_num) (by norm_num)).mpr
    (.inr (.inr (by norm_num)))

def Task.isExecute : Task → Bool
  | .execute => true
  | .send _ => false

/-- The computation tasks a process has run. -/
def Work.executed (w : Work) : Nat := w.tasks.countP Task.isExecute

/-- The communication tasks a process has run. -/
def Work.sent (w : Work) : Nat := w.tasks.countP fun task => !task.isExecute

/-- The two kinds take turns until one cap or the end is reached. -/
structure Alternated (c : WorkParams) (w : Work) : Prop where
  executed : (w.executed : Int) = w.p
  sent : (w.sent : Int) = w.n
  computing : w.n ≤ w.p ∨ w.p = c.comp
  sending : w.p ≤ w.n ∨ w.n = c.comm ∨ (w.i = c.iterations ∧ w.p = w.n + 1)

theorem computeTurn_cases (c : WorkParams) (w : Work) :
    (c.comp ≤ w.p ∧ computeTurn c w = w) ∨
      (w.p < c.comp ∧ (computeTurn c w).p = w.p + 1 ∧ (computeTurn c w).i = w.i + 1 ∧
        (computeTurn c w).n = w.n ∧ (computeTurn c w).executed = w.executed + 1 ∧
        (computeTurn c w).sent = w.sent) := by
  unfold computeTurn
  split
  next computes => exact .inr ⟨computes, rfl, rfl, rfl, by simp [Work.executed,Task.isExecute],
    by simp [Work.sent,Task.isExecute]⟩
  next rests => exact .inl ⟨by omega, rfl⟩

theorem sendTurn_cases (c : WorkParams) (w : Work) :
    ((c.comm ≤ w.n ∨ c.iterations ≤ w.i) ∧ sendTurn c w = w) ∨
      (w.n < c.comm ∧ w.i < c.iterations ∧ (sendTurn c w).n = w.n + 1 ∧
        (sendTurn c w).i = w.i + 1 ∧ (sendTurn c w).p = w.p ∧
        (sendTurn c w).executed = w.executed ∧ (sendTurn c w).sent = w.sent + 1) := by
  unfold sendTurn
  split
  next sends => exact .inr ⟨sends.1, sends.2, rfl, rfl, rfl, by simp [Work.executed,Task.isExecute],
    by simp [Work.sent,Task.isExecute]⟩
  next rests => exact .inl ⟨by omega, rfl⟩

theorem turn_alternated {c : WorkParams} {w : Work} (counted : Counted c w)
    (alternated : Alternated c w) (goes : w.i < c.iterations) :
    Alternated c (sendTurn c (computeTurn c w)) := by
  obtain ⟨executed, sent, computing, sending⟩ := alternated
  have := counted.sum
  have := counted.comp
  have := counted.comm
  rcases computeTurn_cases c w with ⟨rests, same⟩ | ⟨computes, p, i, n, computed, kept⟩
  · rw [same]
    rcases sendTurn_cases c w with ⟨waits, same⟩ | ⟨sends, inside, n, i, p, kept, one⟩
    · rw [same]
      exact ⟨executed, sent, computing, sending⟩
    · constructor <;> omega
  · rcases sendTurn_cases c (computeTurn c w) with ⟨waits, same⟩ | ⟨sends, inside, n', i', p', kept', one⟩
    · rw [same]
      constructor <;> omega
    · constructor <;> omega

/-- When the loop has ended: both invariants, and no iteration is left. -/
theorem work_alternated {c : WorkParams} {targetMailbox : Int} {final : Work}
    (iterations : 0 ≤ c.iterations) (comp : 0 ≤ c.comp) (comm : 0 ≤ c.comm)
    (ends : WorkEnds c targetMailbox final) :
    Counted c final ∧ Alternated c final ∧ final.i = c.iterations := by
  obtain ⟨⟨counted, alternated⟩, stop⟩ := ends.invariant (fun w => Counted c w ∧ Alternated c w)
    (fun w ⟨counted, alternated⟩ goes => by
      have goes : w.i < c.iterations := by simpa using goes
      exact ⟨(turn_counted counted goes).1, turn_alternated counted alternated goes⟩)
    ⟨⟨rfl, rfl, comp, comm, iterations⟩, rfl, rfl, .inl (Int.le_refl 0), .inl (Int.le_refl 0)⟩
  refine ⟨counted, alternated, ?_⟩
  have := counted.iterations
  simp only [decide_eq_false_iff_not] at stop
  omega

/-- Caps that add up to the iterations, as `COMM_TASK_SIZE` is declared, fix the split. -/
theorem work_split {c : WorkParams} {targetMailbox : Int} {final : Work} (comp : 0 ≤ c.comp)
    (comm : 0 ≤ c.comm) (exact : c.comp + c.comm = c.iterations) (ends : WorkEnds c targetMailbox final) :
    (final.executed : Int) = c.comp ∧ (final.sent : Int) = c.comm := by
  obtain ⟨counted, alternated, done⟩ := work_alternated (by omega) comp comm ends
  have := counted.sum
  have := counted.comp
  have := counted.comm
  rw [alternated.executed,alternated.sent]
  omega

section Float
open Rounding

/-- The iterations in the `float` arithmetic of `main`. -/
def iterationPerProcessFloat (numberOfVMs : Nat) : Int :=
  Truncate.toInt (single (single numberOfVMs * single (3 / 5)))

def compTaskSizeFloat (compPerComm : ℚ) (iterations : Int) : Int :=
  Truncate.toInt (single (compPerComm * single iterations))

def commTaskSizeFloat (compPerComm : ℚ) (iterations : Int) : Int :=
  Truncate.toInt (single (single iterations - compPerComm))

def workParamsFloat (numberOfVMs : Nat) (compPerComm : ℚ) (processSequence : Int) : WorkParams where
  numberOfVMs := numberOfVMs
  iterations := iterationPerProcessFloat numberOfVMs
  comp := compTaskSizeFloat compPerComm (iterationPerProcessFloat numberOfVMs)
  comm := commTaskSizeFloat compPerComm (iterationPerProcessFloat numberOfVMs)
  processSequence := processSequence

/-- A ratio that is a `float`, from 0 to below 1. -/
structure Ratio (compPerComm : ℚ) : Prop where
  rounded : single compPerComm = compPerComm
  nonneg : 0 ≤ compPerComm
  below : compPerComm < 1

theorem single_nonneg {x : ℚ} (nonneg : 0 ≤ x) : 0 ≤ single x := nearest_nonneg nonneg

theorem single_ge {x : ℚ} (above : 1 ≤ x) : x * (1 - 1 / 2 ^ 24) ≤ single x := by
  have small : |single x - x| ≤ x * 2 ^ (-24 : Int) :=
    abs_nearest_sub_le_mul (by linarith) (le_trans (by norm_num) above)
  have low := (abs_le.mp small).1
  norm_num at low
  linarith

theorem one_le_toInt {x : ℚ} {n : Int} (above : (n : ℚ) ≤ x) (nonneg : 0 ≤ n) : n ≤ Truncate.toInt x := by
  rw [toInt_of_nonneg (le_trans (by exact_mod_cast nonneg) above)]
  exact Int.le_floor.mpr above

theorem iterationPerProcessFloat_nonneg (n : Nat) : 0 ≤ iterationPerProcessFloat n := by
  unfold iterationPerProcessFloat
  have ratio : (0 : ℚ) ≤ single (3 / 5) := single_nonneg (by norm_num)
  have count : (0 : ℚ) ≤ single n := single_nonneg (by positivity)
  exact one_le_toInt (by exact_mod_cast single_nonneg (mul_nonneg count ratio)) (le_refl 0)

theorem compTaskSizeFloat_eq {ρ : ℚ} (nonneg : 0 ≤ ρ) {k : Int} (iterations : 0 ≤ k) :
    compTaskSizeFloat ρ k = ⌊single (ρ * single k)⌋ :=
  toInt_of_nonneg (single_nonneg (mul_nonneg nonneg (single_nonneg (by exact_mod_cast iterations))))

theorem compTaskSizeFloat_nonneg {ρ : ℚ} (nonneg : 0 ≤ ρ) {k : Int} (iterations : 0 ≤ k) :
    0 ≤ compTaskSizeFloat ρ k := by
  rw [compTaskSizeFloat_eq nonneg iterations]
  exact Int.floor_nonneg.mpr (single_nonneg (mul_nonneg nonneg (single_nonneg (by exact_mod_cast iterations))))

theorem commTaskSizeFloat_zero {ρ : ℚ} (ratio : Ratio ρ) : commTaskSizeFloat ρ 0 = 0 := by
  obtain ⟨rounded, nonneg, below⟩ := ratio
  have zero : single ((0 : Int) : ℚ) = 0 := by decide +kernel
  have bound : -ρ ≤ single (-ρ) := neg_le_nearest rounded
  have most : single (-ρ) ≤ 0 := nearest_nonpos (by linarith)
  have fraction : ⌊-single (-ρ)⌋ = 0 := Int.floor_eq_zero_iff.mpr ⟨by linarith, by linarith⟩
  rw [commTaskSizeFloat,zero,zero_sub,← neg_neg (single (-ρ)),toInt_neg,toInt_of_nonneg (by linarith),fraction]
  rfl

/-- Every other iteration may send. -/
theorem half_le_commTaskSizeFloat {ρ : ℚ} (ratio : Ratio ρ) {k : Int} (iterations : 0 ≤ k) :
    k / 2 ≤ commTaskSizeFloat ρ k := by
  have nonneg := ratio.nonneg
  have below := ratio.below
  obtain rfl | rfl | rfl | many : k = 0 ∨ k = 1 ∨ k = 2 ∨ 3 ≤ k := by omega
  · exact (commTaskSizeFloat_zero ratio).ge
  all_goals unfold commTaskSizeFloat
  · have one : single ((1 : Int) : ℚ) = 1 := by decide +kernel
    rw [one]
    exact one_le_toInt (by exact_mod_cast single_nonneg (by linarith)) (by decide)
  · have two : single ((2 : Int) : ℚ) = 2 := by decide +kernel
    have bound : (2 : ℚ) ^ (0 : Int) ≤ single (2 - ρ) :=
      pow_le_nearest (by decide) (by decide) (by norm_num; linarith)
    rw [two]
    exact one_le_toInt (by simpa using bound) (by decide)
  · have three : (3 : ℚ) ≤ k := by exact_mod_cast many
    have first := single_ge (x := (k : ℚ)) (by linarith)
    have second := single_ge (x := single (k : ℚ) - ρ) (by norm_num at first; linarith)
    have half : ((k / 2 : Int) : ℚ) ≤ k / 2 := by
      rw [le_div_iff₀ (by norm_num)]
      exact_mod_cast (by omega : k / 2 * 2 ≤ k)
    refine one_le_toInt (half.trans ?_) (by omega)
    norm_num at first second
    linarith

/-- For every number of VMs and every ratio in [0, 1) for which the loop ends: it runs the
computation tasks wanted and sends for the rest of the iterations, if and only if no more
computation is wanted than every other iteration. -/
theorem process_task_split_iff (numberOfVMs : Nat) {compPerComm : ℚ} (ratio : Ratio compPerComm)
    (processSequence targetMailbox : Int) (final : Work)
    (ends : WorkEnds (workParamsFloat numberOfVMs compPerComm processSequence) targetMailbox final) :
    ((final.executed : Int) = compTaskSizeFloat compPerComm (iterationPerProcessFloat numberOfVMs) ∧
      (final.sent : Int) = iterationPerProcessFloat numberOfVMs -
        compTaskSizeFloat compPerComm (iterationPerProcessFloat numberOfVMs)) ↔
      single (compPerComm * single (iterationPerProcessFloat numberOfVMs)) <
        ((iterationPerProcessFloat numberOfVMs + 1) / 2 : Int) + 1 := by
  have iterations := iterationPerProcessFloat_nonneg numberOfVMs
  unfold workParamsFloat at ends
  generalize iterationPerProcessFloat numberOfVMs = k at *
  have comp_nonneg := compTaskSizeFloat_nonneg ratio.nonneg iterations
  have comm_half := half_le_commTaskSizeFloat ratio iterations
  have half : single (compPerComm * single k) < ((k + 1) / 2 : Int) + 1 ↔
      compTaskSizeFloat compPerComm k ≤ (k + 1) / 2 := by
    rw [compTaskSizeFloat_eq ratio.nonneg iterations,Int.floor_le_iff]
  obtain ⟨counted, alternated, done⟩ := work_alternated iterations comp_nonneg
    (show 0 ≤ commTaskSizeFloat compPerComm k by omega) ends
  obtain ⟨sum, -, comp_cap, comm_cap, -⟩ := counted
  obtain ⟨executed, sent, computing, sending⟩ := alternated
  simp only at done comp_cap comm_cap computing sending
  rw [half,executed,sent]
  omega

/-- Seven VMs and a ratio of 0.75: of four iterations, three are to compute, and two do. -/
theorem process_task_unsplit : Ratio (3 / 4) ∧
    ∃ final, WorkEnds (workParamsFloat 7 (3 / 4) 0) 0 final ∧ final.executed = 2 ∧
      ¬ ((final.executed : Int) = compTaskSizeFloat (3 / 4) (iterationPerProcessFloat 7) ∧
        (final.sent : Int) = iterationPerProcessFloat 7 - compTaskSizeFloat (3 / 4) (iterationPerProcessFloat 7)) := by
  have counts : workParamsFloat 7 (3 / 4) 0 = ⟨7, 4, 3, 3, 0⟩ := by decide +kernel
  have wanted : compTaskSizeFloat (3 / 4) (iterationPerProcessFloat 7) = 3 := by decide +kernel
  rw [counts,wanted]
  obtain ⟨final, ends, _⟩ := (work_ends_iff (c := ⟨7, 4, 3, 3, 0⟩) 0 (by decide) (by decide)
    (by decide)).mpr (by decide)
  obtain ⟨counted, alternated, done⟩ := work_alternated (by decide) (by decide) (by decide) ends
  obtain ⟨sum, -, comp_cap, comm_cap, -⟩ := counted
  obtain ⟨executed, sent, computing, sending⟩ := alternated
  simp only at done comp_cap comm_cap computing sending
  exact ⟨⟨by decide +kernel, by norm_num, by norm_num⟩, final, ends, by omega, by omega⟩

theorem ratio_default : Ratio (single (1 / 5)) := ⟨by decide +kernel, by decide +kernel, by decide +kernel⟩

theorem process_task_split_nine :
    ∃ final, WorkEnds (workParamsFloat 9 (single (1 / 5)) 0) 0 final ∧
      (final.executed : Int) = compTaskSizeFloat (single (1 / 5)) (iterationPerProcessFloat 9) ∧
      (final.sent : Int) = iterationPerProcessFloat 9 -
        compTaskSizeFloat (single (1 / 5)) (iterationPerProcessFloat 9) := by
  have counts : workParamsFloat 9 (single (1 / 5)) 0 = ⟨9, 5, 1, 4, 0⟩ := by decide +kernel
  obtain ⟨final, ends, _⟩ := (work_ends_iff (c := ⟨9, 5, 1, 4, 0⟩) 0 (by decide) (by decide)
    (by decide)).mpr (by decide)
  rw [← counts] at ends
  exact ⟨final, ends, (process_task_split_iff 9 ratio_default 0 0 final ends).mpr (by decide +kernel)⟩

end Float

end Hpvc.Organizer
