import Hpvc.Library.Ledger
import Hpvc.Library.Runs
import Mathlib.Algebra.Group.Prod
import Mathlib.Algebra.Order.Field.Rat
import Mathlib.Tactic.Abel

/-! Resource accounting of the two simulators: `create_tasks` adds the need of a new task
to the properties of its VM, and `process_task` subtracts at its end what it computes
from its arguments. -/
namespace Hpvc.Accounting

/-- The properties "mem" and "net", of numbers. -/
abbrev Amounts := ℚ × ℚ

/-- What the two processes of a simulator compute: `print` makes the arguments of a task
of a cluster, the cluster among them. -/
structure Program (P Argv A : Type) where
  print : Nat → P → Argv
  charge : P → A
  discharge : Argv → A
  cluster : Argv → Int
  cluster_print : ∀ c p, cluster (print c p) = c

/-- The VM is given by its cluster and its index; a process stays on its VM. -/
structure Task (P : Type) where
  vm : Nat × Nat
  params : P
  charged : Bool
  ended : Bool

structure State (P A : Type) where
  amounts : Nat × Nat → A
  tasks : List (Task P)
  pm : Nat × Nat → Nat

/-- `launch_master` sets the properties to zero. -/
def start (P A : Type) [Zero A] (pm : Nat × Nat → Nat) : State P A := ⟨fun _ => 0, [], pm⟩

/-- `charge` and `finish` name a task by its number. -/
inductive Event (P : Type) where
  | create (cluster home : Nat) (params : P)
  | charge (k : Nat)
  | finish (k : Nat)
  | migrate (vm : Nat × Nat) (targetPm : Nat)

variable {P Argv A : Type}

def Program.argv (prog : Program P Argv A) (t : Task P) : Argv := prog.print t.vm.1 t.params

/-- Only tasks of cluster 0 are charged and discharged. -/
def step [Add A] [Neg A] (prog : Program P Argv A) (s : State P A) : Event P → Option (State P A)
  | .create cluster home params =>
    some { s with tasks := s.tasks ++ [⟨(cluster, home), params, false, false⟩] }
  | .charge k => s.tasks[k]?.bind fun t =>
    if t.charged then none
    else some
      { s with
        tasks := s.tasks.set k { t with charged := true }
        amounts := if t.vm.1 = 0 then Ledger.post s.amounts t.vm (prog.charge t.params) else s.amounts }
  | .finish k => s.tasks[k]?.bind fun t =>
    if t.ended then none
    else some
      { s with
        tasks := s.tasks.set k { t with ended := true }
        amounts := if prog.cluster (prog.argv t) = 0 then
          Ledger.post s.amounts t.vm (-prog.discharge (prog.argv t)) else s.amounts }
  | .migrate vm targetPm => some { s with pm := Function.update s.pm vm targetPm }

section Sums
variable [Add A] [Zero A]

/-- The needs charged to a VM. -/
def Program.charged (prog : Program P Argv A) (tasks : List (Task P)) (v : Nat × Nat) : A :=
  ((tasks.filter fun t => t.vm == v && t.charged).map fun t => prog.charge t.params).sum

/-- What the tasks that ended on a VM have subtracted. -/
def Program.discharged (prog : Program P Argv A) (tasks : List (Task P)) (v : Nat × Nat) : A :=
  ((tasks.filter fun t => t.vm == v && t.ended).map fun t => prog.discharge (prog.argv t)).sum

end Sums

@[simp] theorem cluster_argv (prog : Program P Argv A) (t : Task P) :
    prog.cluster (prog.argv t) = t.vm.1 := prog.cluster_print _ _

section Translation
variable {B : Type} (f : A → B)

/-- The program that computes translated amounts. -/
def Program.map (prog : Program P Argv A) : Program P Argv B :=
  { prog with charge := f ∘ prog.charge, discharge := f ∘ prog.discharge }

def State.map (s : State P A) : State P B := { s with amounts := f ∘ s.amounts }

variable {f} [Add A] [Add B] (add : ∀ a b, f (a + b) = f a + f b)
include add

theorem step_map [Neg A] [Neg B] (neg : ∀ a, f (-a) = -f a) (prog : Program P Argv A) (s : State P A)
    (event : Event P) : step (prog.map f) (s.map f) event = (step prog s event).map (State.map f) := by
  cases event with
  | create cluster home params => rfl
  | migrate vm targetPm => rfl
  | charge k =>
    simp only [step,State.map,Program.map,Function.comp_apply]
    cases s.tasks[k]? with
    | none => rfl
    | some t =>
      simp only [Option.bind_some]
      split
      · rfl
      · split <;> simp [State.map,Ledger.comp_post add]
  | finish k =>
    simp only [step,State.map,Program.map,Program.argv,Function.comp_apply]
    cases s.tasks[k]? with
    | none => rfl
    | some t =>
      simp only [Option.bind_some]
      split
      · rfl
      · by_cases first : prog.cluster (prog.print t.vm.1 t.params) = 0 <;>
          simp [first,State.map,Ledger.comp_post add,neg]

/-- Amounts are translated in a run as they are in a step. -/
theorem run_map [Neg A] [Neg B] (neg : ∀ a, f (-a) = -f a) (prog : Program P Argv A) (s : State P A)
    (events : List (Event P)) :
    Runs.run (step (prog.map f)) (s.map f) events = (Runs.run (step prog) s events).map (State.map f) := by
  induction events generalizing s with
  | nil => rfl
  | cons event rest ih =>
    rw [Runs.run_cons,Runs.run_cons,step_map add neg]
    cases step prog s event with
    | none => rfl
    | some next => exact ih next

variable [Zero A] [Zero B] (zero : f 0 = 0)
include zero

theorem sum_map (l : List A) : (l.map f).sum = f l.sum := by
  induction l with
  | nil => exact zero.symm
  | cons a rest ih => rw [List.map_cons,List.sum_cons,List.sum_cons,ih,add]

theorem charged_map (prog : Program P Argv A) (tasks : List (Task P)) (v : Nat × Nat) :
    (prog.map f).charged tasks v = f (prog.charged tasks v) := by
  rw [Program.charged,Program.charged,← sum_map add zero,List.map_map]
  rfl

theorem discharged_map (prog : Program P Argv A) (tasks : List (Task P)) (v : Nat × Nat) :
    (prog.map f).discharged tasks v = f (prog.discharged tasks v) := by
  rw [Program.discharged,Program.discharged,← sum_map add zero,List.map_map]
  rfl

end Translation

section Balance
variable [AddCommGroup A]

/-- What a task accounts for on a VM. -/
def Program.entry (prog : Program P Argv A) (v : Nat × Nat) (t : Task P) : A :=
  if t.vm = v ∧ v.1 = 0 then
    (if t.charged then prog.charge t.params else 0) -
      (if t.ended then prog.discharge (prog.argv t) else 0)
  else 0

theorem posted (balance : Nat × Nat → A) (v : Nat × Nat) (c : Prop) [Decidable c] (a : A) :
    (if c then Ledger.post balance v a else balance) = Ledger.post balance v (if c then a else 0) := by
  split
  · rfl
  · simp [Ledger.post]

/-- Every event is accounted for by the task it is about. -/
theorem step_backed {prog : Program P Argv A} {s next : State P A} {event : Event P}
    (backed : Ledger.Backed prog.entry s.amounts s.tasks) (taken : step prog s event = some next) :
    Ledger.Backed prog.entry next.amounts next.tasks := by
  cases event with
  | create cluster home params =>
    cases taken
    exact backed.append fun v => by simp [Program.entry]
  | migrate vm targetPm =>
    cases taken
    exact backed
  | charge k =>
    obtain ⟨t, here, taken⟩ := Option.bind_eq_some_iff.mp taken
    split at taken
    · contradiction
    next fresh =>
      cases taken
      simp only [posted]
      apply (backed.post_iff here _ _ _).mpr
      intro v
      by_cases same : t.vm = v
      · subst same
        by_cases first : t.vm.1 = 0 <;> simp [Program.entry,Program.argv,fresh,first]
        abel
      · simp [Program.entry,same,Ne.symm same]
  | finish k =>
    obtain ⟨t, here, taken⟩ := Option.bind_eq_some_iff.mp taken
    split at taken
    · contradiction
    next running =>
      cases taken
      simp only [posted,cluster_argv]
      apply (backed.post_iff here _ _ _).mpr
      intro v
      by_cases same : t.vm = v
      · subst same
        by_cases first : t.vm.1 = 0 <;> simp [Program.entry,Program.argv,running,first]
        abel
      · simp [Program.entry,same,Ne.symm same]

theorem run_backed {prog : Program P Argv A} {pm : Nat × Nat → Nat} {events : List (Event P)}
    {final : State P A} (h : Runs.run (step prog) (start P A pm) events = some final) :
    Ledger.Backed prog.entry final.amounts final.tasks :=
  Runs.run_invariant (fun s => Ledger.Backed prog.entry s.amounts s.tasks)
    (fun _ _ _ backed taken => step_backed backed taken) (fun _ => rfl) h

/-- A VM of cluster 0 has what was charged to it less what was discharged on it. -/
theorem run_amounts {prog : Program P Argv A} {pm : Nat × Nat → Nat} {events : List (Event P)}
    {final : State P A} (h : Runs.run (step prog) (start P A pm) events = some final) (i : Nat) :
    final.amounts (0, i) = prog.charged final.tasks (0, i) - prog.discharged final.tasks (0, i) := by
  rw [run_backed h (0, i),Program.charged,Program.discharged,Ledger.sum_filter,Ledger.sum_filter]
  induction final.tasks with
  | nil => simp
  | cons t rest ih =>
    rw [List.map_cons,List.map_cons,List.map_cons,List.sum_cons,List.sum_cons,List.sum_cons,ih]
    by_cases same : t.vm = (0, i)
    · simp [Program.entry,same]
      abel
    · simp [Program.entry,same]

end Balance

end Hpvc.Accounting
