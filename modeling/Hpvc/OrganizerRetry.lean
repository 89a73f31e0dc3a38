import Hpvc.OrganizerTraffic
import Mathlib.Tactic.NormNum

/-! The send loop of `process_task`. A message to a VM on the same PM is made smaller, in the task
that a failed attempt leaves to the next one. -/
namespace Hpvc.Organizer

/-- One call of `send_task`: the PMs of the two VMs, the clock before and after the send, and the outcome. -/
structure Attempt where
  senderPM : String
  receiverPM : String
  startTime : ℚ
  endTime : ℚ
  ok : Bool

/-- The bytes of the task, and the shared matrices. -/
structure Sending where
  bytes : ℚ
  matrices : Matrices ℚ

/-- `task_size * 0.01f`, where sender and receiver are on one PM. -/
def colocated (a : Attempt) (bytes : ℚ) : ℚ :=
  if a.senderPM = a.receiverPM then bytes * (1 / 100) else bytes

/-- `send_task` -/
def Attempt.send (sender receiver : Nat) (s : Sending) (a : Attempt) : Option Sending :=
  (sendTask a.ok (vmName 0 sender) (vmName 0 receiver) a.startTime a.endTime s.matrices).map fun m =>
    ⟨colocated a s.bytes, m⟩

/-- `while (send_task(comm_task, ..) != MSG_OK)`, over the attempts that are made. -/
def sendLoop (sender receiver : Nat) (s : Sending) : List Attempt → Option Sending
  | [] => none
  | a :: rest => (a.send sender receiver s).bind fun s =>
    if a.ok then some s else sendLoop sender receiver s rest

/-- The bytes that were transferred are those of the message for the PMs of the last attempt. -/
def KeepsSize (net : ℚ) (m : Matrices ℚ) (sender receiver : Nat) (failed : List Attempt)
    (last : Attempt) : Prop :=
  ∃ s, sendLoop sender receiver ⟨net, m⟩ (failed ++ [last]) = some s ∧ s.bytes = colocated last net

/-- How often a failed attempt has made the message smaller. -/
def timesReduced (failed : List Attempt) : Nat := failed.countP fun a => a.senderPM = a.receiverPM

theorem colocated_mul (a : Attempt) (factor bytes : ℚ) :
    colocated a (factor * bytes) = factor * colocated a bytes := by
  unfold colocated
  split
  · ring
  · rfl

theorem colocated_pow (a : Attempt) (bytes : ℚ) :
    colocated a bytes = (1 / 100) ^ (if a.senderPM = a.receiverPM then 1 else 0) * bytes := by
  unfold colocated
  split
  · ring
  · rw [pow_zero,one_mul]

/-- Failed attempts leave the matrices, and a factor of 1 / 100 for each that was made on one PM. -/
theorem sendLoop_eq (sender receiver : Nat) (net : ℚ) (m : Matrices ℚ) {failed : List Attempt} {last : Attempt}
    (fails : ∀ a ∈ failed, a.ok = false) (succeeds : last.ok = true) :
    ∃ m', sendLoop sender receiver ⟨net, m⟩ (failed ++ [last]) =
        some ⟨(1 / 100) ^ timesReduced failed * colocated last net, m'⟩ ∧
      sendTask true (vmName 0 sender) (vmName 0 receiver) last.startTime last.endTime m = some m' := by
  induction failed generalizing net with
  | nil =>
    obtain ⟨m', sent, _⟩ := sendTask_ok sender receiver last.startTime last.endTime m
    exact ⟨m', by simp [sendLoop,Attempt.send,succeeds,sent,timesReduced], sent⟩
  | cons a rest ih =>
    obtain ⟨failed_now, fails⟩ := List.forall_mem_cons.mp fails
    obtain ⟨m', looped, sent⟩ := ih (colocated a net) fails
    refine ⟨m', ?_, sent⟩
    have unsent : a.send sender receiver ⟨net, m⟩ = some ⟨colocated a net, m⟩ := by
      rw [Attempt.send,failed_now]
      rfl
    rw [List.cons_append,sendLoop,unsent,Option.bind_some,failed_now,if_neg Bool.false_ne_true,looped]
    have count : timesReduced (a :: rest) =
        timesReduced rest + if a.senderPM = a.receiverPM then 1 else 0 := by
      simp [timesReduced,List.countP_cons]
    rw [count,colocated_pow a,colocated_mul,← mul_assoc,← pow_add]

/-- A retried message keeps its size exactly if no failed attempt was made on one PM, or it has none. -/
theorem retry_keeps_size {net : ℚ} {failed : List Attempt} {last : Attempt} (m : Matrices ℚ)
    (sender receiver : Nat) (fails : ∀ a ∈ failed, a.ok = false) (succeeds : last.ok = true) :
    KeepsSize net m sender receiver failed last ↔ net = 0 ∨ ∀ a ∈ failed, a.senderPM ≠ a.receiverPM := by
  obtain ⟨m', looped, _⟩ := sendLoop_eq sender receiver net m fails succeeds
  have transferred : KeepsSize net m sender receiver failed last ↔
      (1 / 100) ^ timesReduced failed * colocated last net = colocated last net := by
    unfold KeepsSize
    rw [looped]
    simp
  have never : timesReduced failed = 0 ↔ ∀ a ∈ failed, a.senderPM ≠ a.receiverPM := by
    simp [timesReduced,List.countP_eq_zero]
  have empty : colocated last net = 0 ↔ net = 0 := by
    unfold colocated
    split <;> simp
  have factor : ((1 : ℚ) / 100) ^ timesReduced failed = 1 ↔ timesReduced failed = 0 := by
    refine ⟨fun one => ?_, fun zero => by rw [zero,pow_zero]⟩
    by_contra some_time
    have whole := (pow_eq_one_iff_of_nonneg (by norm_num) some_time).mp one
    norm_num at whole
  rw [transferred,mul_left_eq_self₀,factor,never,empty,or_comm]

/-- One attempt fails between two PMs, then the VMs have come together and the message is sent. -/
theorem retry_keeps_size_apart :
    KeepsSize 3750000 initialMatrices 0 1 [⟨"c-0.me", "c-1.me", 0, 1, false⟩] ⟨"c-1.me", "c-1.me", 1, 2, true⟩ :=
  (retry_keeps_size initialMatrices 0 1 (by simp) rfl).mpr (.inr (by simp))

/-- One attempt fails on one PM, then the receiver is on another: a hundredth of the message is sent. -/
theorem retry_reduces : ∃ s,
    sendLoop 0 1 ⟨3750000, initialMatrices⟩
        [⟨"c-0.me", "c-0.me", 0, 1, false⟩, ⟨"c-0.me", "c-1.me", 1, 2, true⟩] = some s ∧ s.bytes = 37500 ∧
      ¬ KeepsSize 3750000 initialMatrices 0 1 [⟨"c-0.me", "c-0.me", 0, 1, false⟩]
        ⟨"c-0.me", "c-1.me", 1, 2, true⟩ := by
  refine ⟨_, rfl, ?_, fun ⟨s, sent, keeps⟩ => ?_⟩
  · simp [colocated]
    norm_num
  · cases sent
    simp [colocated] at keeps

end Hpvc.Organizer
