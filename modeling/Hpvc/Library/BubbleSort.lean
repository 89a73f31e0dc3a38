import Mathlib.Data.List.Perm.Basic
import Mathlib.Data.List.Induction
import Mathlib.Order.Lattice

/-! Bubble sort by neighbouring exchanges, with the temporary of the exchange kept
as a function: `carry` is what the moved element becomes on its way through it.
Exchanging only on a strict comparison makes the sort stable. -/
namespace BubbleSort

/-- `len` comparisons of neighbours, from the front. -/
def sweep (exchange : α → α → Bool) (carry : α → α) : Nat → List α → List α
  | len + 1, a :: b :: rest =>
    if exchange a b then b :: sweep exchange carry len (carry a :: rest)
    else a :: sweep exchange carry len (b :: rest)
  | _, l => l

/-- `for (c = 0; c < n - 1; c++) for (d = 0; d < n - c - 1; d++) ...` -/
def sort (exchange : α → α → Bool) (carry : α → α) (n : Nat) (l : List α) : List α :=
  (List.range (n - 1)).foldl (fun l c => sweep exchange carry (n - c - 1) l) l

/-- A temporary that keeps every element of the list has no effect. -/
theorem sweep_carry (exchange : α → α → Bool) (carry : α → α) (len : Nat) (l : List α)
    (keeps : ∀ a ∈ l, carry a = a) : sweep exchange carry len l = sweep exchange id len l := by
  induction len generalizing l with
  | zero => rfl
  | succ len ih =>
    match l with
    | [] => rfl
    | [_] => rfl
    | a :: b :: rest =>
      have here : carry a = a := keeps a (by simp)
      simp only [sweep,here,id]
      rw [ih (a :: rest) fun x hx => keeps x (by simp at hx ⊢; tauto),
        ih (b :: rest) fun x hx => keeps x (by simp at hx ⊢; tauto)]

theorem sweep_perm (exchange : α → α → Bool) (len : Nat) (l : List α) :
    (sweep exchange id len l).Perm l := by
  induction len generalizing l with
  | zero => exact .refl _
  | succ len ih =>
    match l with
    | [] => exact .refl _
    | [_] => exact .refl _
    | a :: b :: rest =>
      simp only [sweep,id]
      split
      · exact ((ih (a :: rest)).cons b).trans (.swap a b rest)
      · exact (ih (b :: rest)).cons a

theorem sweep_append (exchange : α → α → Bool) (carry : α → α) (len : Nat) (front back : List α)
    (long : len < front.length) :
    sweep exchange carry len (front ++ back) = sweep exchange carry len front ++ back := by
  induction len generalizing front with
  | zero => rfl
  | succ len ih =>
    match front with
    | [] => simp at long
    | [_] => simp at long
    | a :: b :: rest =>
      have inner (x : α) : sweep exchange carry len (x :: rest ++ back) =
          sweep exchange carry len (x :: rest) ++ back := ih (x :: rest) (by simpa using long)
      simp only [List.cons_append] at inner
      simp only [List.cons_append,sweep,inner]
      split <;> rfl

theorem sort_perm (exchange : α → α → Bool) (n : Nat) (l : List α) :
    (sort exchange id n l).Perm l := by
  unfold sort
  induction List.range (n - 1) using List.reverseRecOn with
  | nil => exact .refl _
  | append_singleton past c ih =>
    rw [List.foldl_append]
    exact (sweep_perm _ _ _).trans ih

theorem sort_carry (exchange : α → α → Bool) (carry : α → α) (n : Nat) (l : List α)
    (keeps : ∀ a ∈ l, carry a = a) : sort exchange carry n l = sort exchange id n l := by
  unfold sort
  generalize List.range (n - 1) = passes
  induction passes generalizing l with
  | nil => rfl
  | cons c rest ih =>
    rw [List.foldl_cons,List.foldl_cons,sweep_carry exchange carry _ l keeps]
    exact ih _ fun a ha => keeps a ((sweep_perm _ _ _).mem_iff.mp ha)

/-- Exchange when the left key is strictly larger. -/
def larger [LT κ] [DecidableLT κ] (key : α → κ) (a b : α) : Bool := decide (key b < key a)

section Keys

variable {κ : Type*} [LinearOrder κ] [DecidableLT κ] (key : α → κ)

/-- After a sweep over the whole list its last element has a largest key. -/
theorem sweep_last (len : Nat) (l : List α) (exact_length : l.length = len + 1) :
    ∃ front last, sweep (larger key) id len l = front ++ [last] ∧
      ∀ x ∈ front, key x ≤ key last := by
  induction len generalizing l with
  | zero =>
    obtain ⟨a, rfl⟩ := List.length_eq_one_iff.mp exact_length
    exact ⟨[], a, rfl, by simp⟩
  | succ len ih =>
    match l with
    | [] => simp at exact_length
    | [_] => simp at exact_length
    | a :: b :: rest =>
      -- `x` is carried on, `y` stays behind; `y` is not above `x`, so not above the last one.
      have carried (x y : α) (le : key y ≤ key x) : ∃ front last,
          y :: sweep (larger key) id len (x :: rest) = front ++ [last] ∧
            ∀ z ∈ front, key z ≤ key last := by
        obtain ⟨front, last, shape, top⟩ := ih (x :: rest) (by simpa using exact_length)
        have member : x ∈ front ++ [last] :=
          shape ▸ (sweep_perm _ len (x :: rest)).mem_iff.mpr List.mem_cons_self
        have below : key x ≤ key last := by
          rcases List.mem_append.mp member with inner | equal
          · exact top x inner
          · exact (List.mem_singleton.mp equal) ▸ le_rfl
        refine ⟨y :: front, last, by simp [shape], ?_⟩
        intro z hz
        rcases List.mem_cons.mp hz with rfl | hz
        · exact le.trans below
        · exact top z hz
      by_cases h : key b < key a
      · simpa [sweep,larger,h] using carried a b h.le
      · simpa [sweep,larger,h] using carried b a (not_lt.mp h)

/-- Elements with equal keys keep their order. -/
theorem sweep_stable (tie : α → α → Prop) (len : Nat) (l : List α)
    (ordered : l.Pairwise fun a b => key a = key b → tie a b) :
    (sweep (larger key) id len l).Pairwise fun a b => key a = key b → tie a b := by
  induction len generalizing l with
  | zero => exact ordered
  | succ len ih =>
    match l with
    | [] => exact ordered
    | [_] => exact ordered
    | a :: b :: rest =>
      obtain ⟨fromA, tail⟩ := List.pairwise_cons.mp ordered
      obtain ⟨fromB, rest_ordered⟩ := List.pairwise_cons.mp tail
      by_cases strict : key b < key a
      · rw [sweep,larger,decide_eq_true strict,if_pos rfl]
        refine List.pairwise_cons.mpr ⟨?_, ih _ (List.pairwise_cons.mpr
          ⟨fun x hx => fromA x (List.mem_cons_of_mem _ hx), rest_ordered⟩)⟩
        intro x hx
        rcases List.mem_cons.mp ((sweep_perm _ len _).mem_iff.mp hx) with rfl | hx
        · exact fun same => absurd strict (same ▸ lt_irrefl _)
        · exact fromB x hx
      · rw [sweep,larger,decide_eq_false strict,if_neg Bool.false_ne_true]
        refine List.pairwise_cons.mpr ⟨?_, ih _ tail⟩
        intro x hx
        exact fromA x ((sweep_perm _ len _).mem_iff.mp hx)

/-- The first `k` sweeps leave the `k` largest keys sorted at the end. -/
theorem sweeps_sorted (n k : Nat) (l : List α) (size : l.length = n) (bound : k < n) :
    ∃ front back, (List.range k).foldl (fun l c => sweep (larger key) id (n - c - 1) l) l =
        front ++ back ∧ back.length = k ∧ (front ++ back).Perm l ∧
      back.Pairwise (fun a b => key a ≤ key b) ∧ ∀ x ∈ front, ∀ y ∈ back, key x ≤ key y := by
  induction k with
  | zero => exact ⟨l, [], by simp, rfl, by simp, .nil, by simp⟩
  | succ k ih =>
    obtain ⟨front, back, shape, count, perm, sorted, above⟩ := ih (by omega)
    have total := perm.length_eq
    rw [List.length_append,size] at total
    obtain ⟨rest, last, swept, top⟩ := sweep_last key (n - k - 1) front (by omega)
    have same : (rest ++ [last]).Perm front := swept ▸ sweep_perm _ _ front
    refine ⟨rest, last :: back, ?_, by simp [count], ?_, ?_, ?_⟩
    · rw [List.range_succ,List.foldl_append,shape,List.foldl_cons,List.foldl_nil,
        sweep_append _ _ _ _ _ (by omega),swept,List.append_assoc,List.singleton_append]
    · rw [← List.singleton_append,← List.append_assoc]
      exact (same.append_right back).trans perm
    · refine List.pairwise_cons.mpr ⟨?_, sorted⟩
      exact above last (same.mem_iff.mp (by simp))
    · intro x hx y hy
      rcases List.mem_cons.mp hy with rfl | hy
      · exact top x hx
      · exact above x (same.mem_iff.mp (by simp [hx])) y hy

theorem sort_stable (tie : α → α → Prop) (n : Nat) (l : List α)
    (ordered : l.Pairwise fun a b => key a = key b → tie a b) :
    (sort (larger key) id n l).Pairwise fun a b => key a = key b → tie a b := by
  unfold sort
  induction List.range (n - 1) using List.reverseRecOn with
  | nil => exact ordered
  | append_singleton past c ih =>
    rw [List.foldl_append]
    exact sweep_stable key tie _ _ ih

theorem sort_sorted (n : Nat) (l : List α) (size : l.length = n) :
    (sort (larger key) id n l).Pairwise fun a b => key a ≤ key b := by
  rcases Nat.eq_zero_or_pos n with rfl | positive
  · rw [List.length_eq_zero_iff.mp size]; exact .nil
  · obtain ⟨front, back, shape, count, perm, sorted, above⟩ :=
      sweeps_sorted key n (n - 1) l size (by omega)
    have total := perm.length_eq
    rw [List.length_append,size] at total
    obtain ⟨only, rfl⟩ := List.length_eq_one_iff.mp (show front.length = 1 by omega)
    unfold sort
    rw [shape]
    exact List.pairwise_cons.mpr ⟨fun y hy => above only (by simp) y hy, sorted⟩

end Keys

end BubbleSort
