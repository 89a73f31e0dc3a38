import Hpvc.ProjectProcesses

/-! Names and arguments as the texts they are. The processes meet at mailboxes by name and get their arguments as
strings, and every text is printed into a buffer of a fixed size. -/
namespace Hpvc.Project

open Decimal (formatU formatD formatF)

/-- `%d_%d`, for any count of numbers. -/
def numbers : List Nat → List Char
  | [] => []
  | [n] => formatU n
  | n :: rest => formatU n ++ '_' :: numbers rest

/-- Some text, and numbers after it. -/
def named (text : String) (ids : List Nat) : List Char := text.toList ++ numbers ids

/-- The name that both ends print. -/
def Mailbox.name : Mailbox → List Char
  | .vm clusterId mailboxNo => named "mailbox_" [clusterId, mailboxNo]
  | .fin => named "fin_mailbox" []
  | .loadBalancer => named "load_balancer_mailbox_" [0]
  | .create => named "create_" [0]

/-- The arguments of a process, from its name on. -/
def printTask (k : Simulation) (clusterId i homeVm : Nat) (p : TaskParams) : List (List Char) :=
  [named "process_" [clusterId, i], formatF p.r.value, formatF p.m.value, formatF p.c.value, formatF p.randTask.value,
    formatU homeVm, formatU (k.targetMailbox i), formatU clusterId, formatU i]

/-- What a `process_task` reads of its arguments. -/
structure TaskArguments where
  r : ℚ
  m : ℚ
  c : ℚ
  randTask : ℚ
  homeVm : Int
  targetMailbox : Int
  clusterId : Int
  processSequence : Int

/-- With fewer than nine arguments it returns at once. -/
def readTask : List (List Char) → Option TaskArguments
  | _ :: r :: m :: c :: randTask :: homeVm :: targetMailbox :: clusterId :: processSequence :: _ =>
    some
      { r := Decimal.atof r
        m := Decimal.atof m
        c := Decimal.atof c
        randTask := Decimal.atof randTask
        homeVm := Decimal.atoi homeVm
        targetMailbox := Decimal.atoi targetMailbox
        clusterId := Decimal.atoi clusterId
        processSequence := Decimal.atoi processSequence }
  | _ => none

/-- A text and the size of the buffer it is printed into. -/
structure Printed where
  text : List Char
  size : Nat

/-- With the final zero. -/
def Printed.Fits (p : Printed) : Prop := p.text.length < p.size

/-- What `launch_master`, `create_mailbox_processes`, `process_mailbox` and `get_finalize` print for a VM. -/
def vmTexts (clusterId i : Nat) : List Printed :=
  [⟨named "vm_" [clusterId, i], 20⟩, ⟨named "vm_" [clusterId, i] ++ named "_mbox_" [clusterId, i], 40⟩,
    ⟨formatU i, 40⟩, ⟨formatU clusterId, 40⟩, ⟨(Mailbox.vm clusterId i).name, 40⟩,
    ⟨named "finish_" [clusterId, i], 40⟩]

/-- What `create_tasks`, `guest_load_balance` and the `process_task` with this PID print for a task. -/
def taskTexts (k : Simulation) (clusterId i homeVm pid : Nat) (p : TaskParams) : List Printed :=
  [⟨named "load_balancing_" [clusterId, i], 40⟩, ⟨named "res_" [clusterId, i], 40⟩] ++
    (printTask k clusterId i homeVm p).map (⟨·, 40⟩) ++
    [⟨named "task_" [pid], 20⟩, ⟨named "msg_" [pid], 20⟩, ⟨(Mailbox.vm clusterId (k.targetMailbox i)).name, 40⟩,
      ⟨named "" [clusterId, pid], 40⟩, ⟨Mailbox.fin.name, 20⟩]

/-- What is printed for the two load balancers, which only cluster 0 has. -/
def balancerTexts (policy : Int) : List Printed :=
  [⟨named "guest_load_balancer_" [0], 40⟩, ⟨named "host_load_balancer_" [0], 40⟩, ⟨formatU 0, 40⟩,
    ⟨formatD policy, 40⟩, ⟨Mailbox.loadBalancer.name, 40⟩, ⟨Mailbox.create.name, 20⟩, ⟨named "finish_" [0], 40⟩]

/-- The mailboxes of the load balancer that `create_tasks` names before its loop, for a cluster without one too. -/
def createTasksTexts (clusterId : Nat) : List Printed :=
  [⟨named "create_" [clusterId], 20⟩, ⟨named "load_balancer_mailbox_" [clusterId], 40⟩]

/-- `%f` and back. -/
def sixDecimals (x : ℚ) : ℚ := Decimal.roundHalfEven (x * 1000000) / 1000000

/-- Two numbers with an underscore between them are told apart. -/
theorem numbers_pair {a b a' b' : Nat} (same : numbers [a, b] = numbers [a', b']) : a = a' ∧ b = b' := by
  have stop (n : Nat) : ∀ c, ('_' :: formatU n).head? = some c → c.isDigit = false := by
    intro c is
    cases is
    rfl
  have first := Decimal.scanInt_formatU a ('_' :: formatU b) (stop b)
  have second := Decimal.scanInt_formatU a' ('_' :: formatU b') (stop b')
  have texts : formatU a ++ '_' :: formatU b = formatU a' ++ '_' :: formatU b' := same
  rw [texts,second] at first
  simp only [Option.some.injEq,Prod.mk.injEq,Nat.cast_inj,List.cons.injEq,true_and] at first
  obtain ⟨left, rest⟩ := first
  have right := congrArg Decimal.value rest
  rw [Decimal.value_formatU,Decimal.value_formatU] at right
  exact ⟨left.symm, right.symm⟩

/-- No two mailboxes have one name. -/
theorem mailbox_name_inj {a b : Mailbox} (same : a.name = b.name) : a = b := by
  have first := congrArg List.head? same
  cases a with
  | vm clusterId mailboxNo =>
    cases b with
    | vm clusterId' mailboxNo' =>
      obtain ⟨rfl, rfl⟩ := numbers_pair (List.append_cancel_left same)
      rfl
    | _ => simp [Mailbox.name,named] at first
  | fin =>
    cases b with
    | fin => rfl
    | _ => simp [Mailbox.name,named] at first
  | loadBalancer =>
    cases b with
    | loadBalancer => rfl
    | _ => simp [Mailbox.name,named] at first
  | create =>
    cases b with
    | create => rfl
    | _ => simp [Mailbox.name,named] at first

theorem formatU_int {n : Nat} (int : n < 2 ^ 31) : (formatU n).length ≤ 10 :=
  (Nat.length_toDigits_le_iff (by decide) (by decide)).mpr (by omega)

theorem formatD_int {z : Int} (least : -2 ^ 31 ≤ z) (most : z < 2 ^ 31) : (formatD z).length ≤ 11 := by
  have digits : (formatU z.natAbs).length ≤ 10 :=
    (Nat.length_toDigits_le_iff (by decide) (by decide)).mpr (by omega)
  unfold formatD
  split
  · rw [List.length_cons]
    omega
  · omega

theorem formatU_digit_length {n : Nat} (small : n < 10) : (formatU n).length ≤ 1 :=
  (Nat.length_toDigits_le_iff (by decide) (by decide)).mpr (by omega)

/-- One digit, a point and six decimals. -/
theorem formatF_length (x : Random) : (formatF x.value).length ≤ 8 := by
  have nonneg := x.nonneg
  have below : x.value * 1000000 ≤ (1000000 : Int) := by
    have := x.below
    push_cast
    linarith
  have micro := Decimal.roundHalfEven_le below
  have whole : (formatU ((Decimal.roundHalfEven (x.value * 1000000)).toNat / 1000000)).length ≤ 1 :=
    formatU_digit_length (by omega)
  have decimals := Decimal.sixDigits_length
    (Nat.mod_lt (Decimal.roundHalfEven (x.value * 1000000)).toNat (by decide : 0 < 1000000))
  simp only [formatF,abs_of_nonneg nonneg,not_lt.mpr nonneg,if_false,List.nil_append,List.length_append,
    List.length_cons,decimals]
  omega

theorem sixDecimals_near (x : ℚ) : |sixDecimals x - x| ≤ 1 / 2000000 := by
  have near := Decimal.roundHalfEven_near (x * 1000000)
  have scaled : sixDecimals x - x = (Decimal.roundHalfEven (x * 1000000) - x * 1000000) / 1000000 := by
    unfold sixDecimals
    ring
  rw [scaled,abs_div,abs_of_pos (by norm_num : (0 : ℚ) < 1000000)]
  linarith

/-- The number of a target is that of a VM, or 0 without any. -/
theorem targetMailbox_int {k : Simulation} (vms : k.numberOfVms ≤ 2 ^ 31) (i : Nat) : k.targetMailbox i < 2 ^ 31 := by
  have below : (k.targets i).value * k.numberOfVms ≤ (k.targets i).value * 2 ^ 31 :=
    mul_le_mul_of_nonneg_left (by exact_mod_cast vms) (k.targets i).nonneg
  have random := (k.targets i).below
  unfold Simulation.targetMailbox
  rw [Nat.floor_lt (mul_nonneg (k.targets i).nonneg (Nat.cast_nonneg _))]
  push_cast
  linarith

theorem readTask_printTask (k : Simulation) (clusterId i homeVm : Nat) (p : TaskParams) :
    readTask (printTask k clusterId i homeVm p) =
      some ⟨sixDecimals p.r.value, sixDecimals p.m.value, sixDecimals p.c.value, sixDecimals p.randTask.value, homeVm,
        k.targetMailbox i, clusterId, i⟩ := by
  simp only [readTask,printTask,Decimal.atof_formatF p.r.nonneg,Decimal.atof_formatF p.m.nonneg,
    Decimal.atof_formatF p.c.nonneg,Decimal.atof_formatF p.randTask.nonneg,Decimal.atoi_formatU]
  rfl

/-- As the model has it, no two mailboxes have one name; a process reads its arguments as they were meant, with the
random numbers off by half a millionth at most, and the host load balancer its policy; and no text that is printed
for a VM, a task or a load balancer is longer than its buffer, for any numbers that are an `int`. -/
theorem names_and_arguments (k : Simulation) (p : TaskParams) {clusterId i homeVm pid : Nat} {policy : Int}
    (cluster : clusterId < numberOfClusters) (vms : k.numberOfVms ≤ 2 ^ 31) (sequence : i < 2 ^ 31)
    (home : homeVm < 2 ^ 31) (process : pid < 2 ^ 31) (least : -2 ^ 31 ≤ policy) (most : policy < 2 ^ 31) :
    (∀ a b : Mailbox, a.name = b.name ↔ a = b) ∧
    (readTask (printTask k clusterId i homeVm p) =
        some ⟨sixDecimals p.r.value, sixDecimals p.m.value, sixDecimals p.c.value, sixDecimals p.randTask.value, homeVm,
          k.targetMailbox i, clusterId, i⟩ ∧ ∀ x : ℚ, |sixDecimals x - x| ≤ 1 / 2000000) ∧
    Decimal.atoi (formatD policy) = policy ∧
    ∀ printed ∈ vmTexts clusterId i ++ taskTexts k clusterId i homeVm pid p ++ balancerTexts policy ++
      createTasksTexts clusterId, printed.Fits := by
  refine ⟨fun a b => ⟨mailbox_name_inj, congrArg _⟩, ⟨readTask_printTask .., sixDecimals_near⟩,
    Decimal.atoi_formatD policy, ?_⟩
  · have digit : (formatU clusterId).length ≤ 1 :=
      formatU_digit_length (Nat.lt_trans cluster (by decide))
    have zero : (formatU 0).length ≤ 1 := formatU_digit_length (by decide)
    have ints := formatU_int sequence
    have homes := formatU_int home
    have pids := formatU_int process
    have policies := formatD_int least most
    have targets := formatU_int (targetMailbox_int vms i)
    have r := formatF_length p.r
    have m := formatF_length p.m
    have c := formatF_length p.c
    have rand := formatF_length p.randTask
    simp [vmTexts,taskTexts,balancerTexts,createTasksTexts,printTask,Mailbox.name,named,numbers,Printed.Fits]
    omega

def halfRandom : Random := ⟨1 / 2, by norm_num, by norm_num⟩

def deployedTexts : Simulation := ⟨3000, 1200, fun _ => 1200, 0, fun _ => halfRandom⟩

/-- The last task of the deployment, on the last VM of the second cluster, with the largest PID there is, and no
policy. -/
theorem names_and_arguments_last : (readTask (printTask deployedTexts 1 2999 1199 ⟨halfRandom, halfRandom, halfRandom,
      halfRandom⟩)).map (fun read => (read.homeVm, read.clusterId, read.processSequence)) = some (1199, 1, 2999) ∧
    Decimal.atoi (formatD (-1)) = -1 ∧
    ∀ printed ∈ vmTexts 1 2999 ++ taskTexts deployedTexts 1 2999 1199 (2 ^ 31 - 1) ⟨halfRandom, halfRandom, halfRandom,
      halfRandom⟩ ++ balancerTexts (-1) ++ createTasksTexts 1, printed.Fits := by
  obtain ⟨_, ⟨read, _⟩, policy, fits⟩ := names_and_arguments deployedTexts
    ⟨halfRandom, halfRandom, halfRandom, halfRandom⟩ (by decide : 1 < numberOfClusters) (by decide)
    (by decide : 2999 < 2 ^ 31) (by decide : 1199 < 2 ^ 31) (by decide : 2 ^ 31 - 1 < 2 ^ 31)
    (by decide : -2 ^ 31 ≤ (-1 : Int)) (by decide)
  exact ⟨by rw [read]; rfl, policy, fits⟩

end Hpvc.Project
