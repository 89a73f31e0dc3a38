import Mathlib.Data.Fintype.Card

/-! A counting semaphore: its value, and the processes blocked in its acquire, which go on in
the order in which they came. -/
namespace Semaphores

variable {P : Type} {initial : Nat}

structure Semaphore (P : Type) where
  value : Nat
  waiting : List P

def Semaphore.init (value : Nat) : Semaphore P := ⟨value, []⟩

/-- Whether the caller goes on at once, and the semaphore. -/
def Semaphore.acquire (s : Semaphore P) (p : P) : Bool × Semaphore P :=
  if 0 < s.value then (true, { s with value := s.value - 1 })
  else (false, { s with waiting := s.waiting ++ [p] })

/-- The first that is blocked goes on; the value grows only where there is none. -/
def Semaphore.release (s : Semaphore P) : Option P × Semaphore P :=
  match s.waiting with
  | [] => (none, { s with value := s.value + 1 })
  | p :: rest => (some p, { s with waiting := rest })

/-- Where a process is: it has not acquired, is blocked in acquire, or has not yet released. -/
inductive Standing where
  | outside | blocked | inside
  deriving DecidableEq

/-- How a process stands once its acquire was granted or not. -/
def acquired (granted : Bool) : Standing := if granted then .inside else .blocked

/-- Whoever a release lets go on was in the queue. -/
theorem woken_waiting {s : Semaphore P} {r : P} (woken : s.release.1 = some r) : r ∈ s.waiting := by
  cases queue : s.waiting with
  | nil =>
    simp only [Semaphore.release,queue] at woken
    contradiction
  | cons first rest =>
    simp only [Semaphore.release,queue] at woken
    cases woken
    exact List.mem_cons_self

/-- With nobody in it there is nothing to change in the queue. -/
theorem idle_waiting {s : Semaphore P} (idle : s.release.1 = none) : s.release.2.waiting = s.waiting := by
  cases queue : s.waiting with
  | nil => simp only [Semaphore.release,queue]
  | cons first rest =>
    simp only [Semaphore.release,queue] at idle
    contradiction

section Order

variable [DecidableEq P]

/-- In the queue, one goes on before the other. Who is not there comes after all who are. -/
def Semaphore.Ahead (s : Semaphore P) (p q : P) : Prop := s.waiting.idxOf p < s.waiting.idxOf q

instance (s : Semaphore P) (p q : P) : Decidable (s.Ahead p q) := Nat.decLt _ _

/-- Nobody gets ahead of one that is blocked already. -/
theorem ahead_acquire {s : Semaphore P} {q : P} (blocked : q ∈ s.waiting) (r p : P) :
    (s.acquire r).2.Ahead p q ↔ s.Ahead p q := by
  unfold Semaphore.Ahead Semaphore.acquire
  split
  next => exact Iff.rfl
  next =>
    have inside := List.idxOf_lt_length_of_mem blocked
    dsimp only
    rw [List.idxOf_append_of_mem blocked]
    by_cases waits : p ∈ s.waiting
    · rw [List.idxOf_append_of_mem waits]
    · rw [List.idxOf_append_of_notMem waits,List.idxOf_eq_length waits]
      omega

/-- One that leaves the queue leaves the order of the others. -/
theorem ahead_release {s : Semaphore P} {r p q : P} (woken : s.release.1 = some r) (other : p ≠ r) (third : q ≠ r) :
    s.release.2.Ahead p q ↔ s.Ahead p q := by
  cases queue : s.waiting with
  | nil =>
    simp only [Semaphore.release,queue] at woken
    contradiction
  | cons first rest =>
    simp only [Semaphore.release,queue] at woken
    cases woken
    simp only [Semaphore.Ahead,Semaphore.release,queue]
    simp only [List.idxOf_cons_ne _ other.symm,List.idxOf_cons_ne _ third.symm,Nat.succ_lt_succ_iff]

/-- It was the first of them. -/
theorem ahead_woken {s : Semaphore P} {r q : P} (woken : s.release.1 = some r) (other : q ≠ r) : s.Ahead r q := by
  cases queue : s.waiting with
  | nil =>
    simp only [Semaphore.release,queue] at woken
    contradiction
  | cons first rest =>
    simp only [Semaphore.release,queue] at woken
    cases woken
    rw [Semaphore.Ahead,queue,List.idxOf_cons_self,List.idxOf_cons_ne _ other.symm]
    omega

end Order

variable [Fintype P]

def insiders (standing : P → Standing) : Finset P := Finset.univ.filter fun p => standing p = .inside

/-- Who is blocked is in the queue once, a queue forms only at value zero, and value
and insiders make up what the semaphore was initialised to. -/
structure Balanced (initial : Nat) (s : Semaphore P) (standing : P → Standing) : Prop where
  nodup : s.waiting.Nodup
  waits : ∀ p, p ∈ s.waiting ↔ standing p = .blocked
  full : s.waiting ≠ [] → s.value = 0
  count : s.value + (insiders standing).card = initial

theorem mem_insiders {standing : P → Standing} {p : P} : p ∈ insiders standing ↔ standing p = .inside := by
  simp [insiders]

theorem balanced_init {standing : P → Standing} (outside : ∀ p, standing p = .outside) :
    Balanced initial (Semaphore.init initial) standing where
  nodup := List.nodup_nil
  waits p := by simp [Semaphore.init,outside p]
  full := by simp [Semaphore.init]
  count := by
    have nobody : insiders standing = ∅ := by
      ext p
      simp [mem_insiders,outside p]
    simp [Semaphore.init,nobody]

/-- Whoever a release lets go on was blocked. -/
theorem Balanced.woken {s : Semaphore P} {standing : P → Standing} {q : P}
    (balanced : Balanced initial s standing) (woken : s.release.1 = some q) : standing q = .blocked := by
  cases queue : s.waiting with
  | nil =>
    simp only [Semaphore.release,queue] at woken
    cases woken
  | cons first rest =>
    simp only [Semaphore.release,queue] at woken
    cases woken
    exact (balanced.waits q).mp (by simp [queue])

/-- A semaphore of one lets one process in at a time. -/
theorem Balanced.exclusive {s : Semaphore P} {standing : P → Standing} {p q : P}
    (balanced : Balanced 1 s standing) (first : standing p = .inside) (second : standing q = .inside) :
    p = q := by
  have count := balanced.count
  have few : (insiders standing).card ≤ 1 := by omega
  exact Finset.card_le_one.mp few p (mem_insiders.mpr first) q (mem_insiders.mpr second)

/-- With nobody inside, the value is the initial one. -/
theorem Balanced.free {s : Semaphore P} {standing : P → Standing} (balanced : Balanced initial s standing)
    (nobody : ∀ p, standing p ≠ .inside) : s.value = initial := by
  have empty : insiders standing = ∅ := Finset.eq_empty_of_forall_notMem fun p member =>
    nobody p (mem_insiders.mp member)
  have count := balanced.count
  rw [empty,Finset.card_empty] at count
  omega

variable [DecidableEq P]

/-- A process leaves, and the one that goes on, if any, enters. -/
def released (standing : P → Standing) (p : P) : Option P → P → Standing
  | none => Function.update standing p .outside
  | some q => Function.update (Function.update standing p .outside) q .inside

theorem insiders_enter (standing : P → Standing) (p : P) :
    insiders (Function.update standing p .inside) = insert p (insiders standing) := by
  ext q
  rw [Finset.mem_insert,mem_insiders,mem_insiders]
  by_cases same : q = p
  · subst same
    simp
  · simp [same]

theorem insiders_leave (standing : P → Standing) (p : P) {now : Standing} (not_inside : now ≠ .inside) :
    insiders (Function.update standing p now) = (insiders standing).erase p := by
  ext q
  rw [Finset.mem_erase,mem_insiders,mem_insiders]
  by_cases same : q = p
  · subst same
    simp [not_inside]
  · simp [same]

theorem Balanced.acquire {s : Semaphore P} {standing : P → Standing} {p : P}
    (balanced : Balanced initial s standing) (outside : standing p = .outside) :
    Balanced initial (s.acquire p).2 (Function.update standing p (acquired (s.acquire p).1)) := by
  have fresh : p ∉ s.waiting := by
    rw [balanced.waits p,outside]
    simp
  have apart : p ∉ insiders standing := by
    rw [mem_insiders,outside]
    simp
  have count := balanced.count
  by_cases free : 0 < s.value
  · have nobody : s.waiting = [] := by
      by_contra some
      have zero := balanced.full some
      omega
    simp only [Semaphore.acquire,free,if_true,acquired]
    refine ⟨balanced.nodup, fun q => ?_, fun queue => absurd nobody queue, ?_⟩
    · by_cases same : q = p
      · subst same
        simp [fresh]
      · rw [Function.update_of_ne same]
        exact balanced.waits q
    · dsimp only
      rw [insiders_enter,Finset.card_insert_of_notMem apart]
      omega
  · simp only [Semaphore.acquire,free,if_false,acquired,Bool.false_eq_true]
    refine ⟨?_, fun q => ?_, fun _ => by dsimp only; omega, ?_⟩
    · exact List.nodup_append.mpr ⟨balanced.nodup, by simp, fun a member b last => by
        rw [List.mem_singleton.mp last]
        rintro rfl
        exact fresh member⟩
    · by_cases same : q = p
      · subst same
        simp
      · rw [Function.update_of_ne same]
        simp [balanced.waits q,same]
    · rw [insiders_leave standing p (by simp),Finset.erase_eq_of_notMem apart]
      exact count

theorem Balanced.release {s : Semaphore P} {standing : P → Standing} {p : P}
    (balanced : Balanced initial s standing) (inside : standing p = .inside) :
    Balanced initial s.release.2 (released standing p s.release.1) := by
  have count := balanced.count
  have member : p ∈ insiders standing := mem_insiders.mpr inside
  have one := Finset.card_erase_add_one member
  cases queue : s.waiting with
  | nil =>
    simp only [Semaphore.release,queue,released]
    refine ⟨by simp, fun q => ?_, by simp, ?_⟩
    · have waits := balanced.waits q
      by_cases same : q = p
      · subst same
        simp
      · rw [Function.update_of_ne same,← waits,queue]
    · dsimp only
      rw [insiders_leave standing p (by simp)]
      omega
  | cons first rest =>
    have blocked : standing first = .blocked := (balanced.waits first).mp (by simp [queue])
    have other : first ≠ p := by
      rintro rfl
      rw [blocked] at inside
      cases inside
    have nodup := balanced.nodup
    rw [queue,List.nodup_cons] at nodup
    have zero := balanced.full (by simp [queue])
    simp only [Semaphore.release,queue,released]
    refine ⟨nodup.2, fun q => ?_, fun _ => zero, ?_⟩
    · have waits := balanced.waits q
      rw [queue] at waits
      by_cases same : q = first
      · subst same
        simp [nodup.1]
      · rw [Function.update_of_ne same]
        by_cases left : q = p
        · subst left
          simpa [inside,same] using waits
        · rw [Function.update_of_ne left,← waits]
          simp [same]
    · have apart : first ∉ insiders (Function.update standing p .outside) := by
        rw [mem_insiders,Function.update_of_ne other,blocked]
        simp
      rw [insiders_enter,Finset.card_insert_of_notMem apart,insiders_leave standing p (by simp)]
      dsimp only
      omega

end Semaphores
