import Mathlib.Analysis.Convex.Basic
import Mathlib.Algebra.Order.Ring.Rat
import Mathlib.Algebra.Order.Field.Rat
import Mathlib.Tactic.FieldSimp
import Mathlib.Tactic.Positivity

/-! The range of a list of measurements with an initial value: averages of values in it,
weighted or running, do not leave it. -/
namespace Hull

variable {K : Type*} [LinearOrder K]

/-- From the least to the greatest of `x` and the values in `l`. -/
def hull (x : K) (l : List K) : Set K := Set.Icc (l.foldl min x) (l.foldl max x)

theorem le_foldl_min {a x : K} {l : List K} : a ≤ l.foldl min x ↔ a ≤ x ∧ ∀ y ∈ l, a ≤ y := by
  induction l generalizing x with
  | nil => simp
  | cons y rest ih =>
    rw [List.foldl_cons,ih,le_min_iff,List.forall_mem_cons,and_assoc]

theorem lt_foldl_min {a x : K} {l : List K} : a < l.foldl min x ↔ a < x ∧ ∀ y ∈ l, a < y := by
  induction l generalizing x with
  | nil => simp
  | cons y rest ih =>
    rw [List.foldl_cons,ih,lt_min_iff,List.forall_mem_cons,and_assoc]

theorem foldl_max_le {a x : K} {l : List K} : l.foldl max x ≤ a ↔ x ≤ a ∧ ∀ y ∈ l, y ≤ a := by
  induction l generalizing x with
  | nil => simp
  | cons y rest ih =>
    rw [List.foldl_cons,ih,max_le_iff,List.forall_mem_cons,and_assoc]

theorem mem_hull_init (x : K) (l : List K) : x ∈ hull x l :=
  ⟨(le_foldl_min.mp le_rfl).1, (foldl_max_le.mp le_rfl).1⟩

theorem mem_hull_of_mem {x y : K} {l : List K} (member : y ∈ l) : y ∈ hull x l :=
  ⟨(le_foldl_min.mp le_rfl).2 y member, (foldl_max_le.mp le_rfl).2 y member⟩

/-- More measurements, a wider range. -/
theorem hull_mono {x : K} {l more : List K} (subset : ∀ y ∈ l, y ∈ more) : hull x l ⊆ hull x more := by
  rintro y ⟨above, below⟩
  constructor
  · refine le_trans (le_foldl_min.mpr ⟨(mem_hull_init x more).1, fun z member => ?_⟩) above
    exact (mem_hull_of_mem (subset z member)).1
  · refine le_trans below (foldl_max_le.mpr ⟨(mem_hull_init x more).2, fun z member => ?_⟩)
    exact (mem_hull_of_mem (subset z member)).2

theorem hull_pos [Zero K] {x y : K} {l : List K} (member : y ∈ hull x l) (initial : 0 < x)
    (values : ∀ z ∈ l, 0 < z) : 0 < y :=
  lt_of_lt_of_le (lt_foldl_min.mpr ⟨initial, values⟩) member.1

variable [Field K] [IsStrictOrderedRing K]

theorem mem_hull_weighted {alpha x y z : K} {l : List K} (low : 0 ≤ alpha) (high : alpha ≤ 1)
    (first : y ∈ hull x l) (second : z ∈ hull x l) : alpha * y + (1 - alpha) * z ∈ hull x l := by
  have weighted := convex_Icc (l.foldl min x) (l.foldl max x) first second low
    (sub_nonneg.mpr high) (add_sub_cancel alpha 1)
  rw [smul_eq_mul,smul_eq_mul] at weighted
  exact weighted

/-- A running average over `count` values takes in one more. -/
theorem mem_hull_average {average count value x : K} {l : List K} (positive : 0 < count)
    (before : average ∈ hull x l) (member : value ∈ hull x l) :
    (average * count + value) / (count + 1) ∈ hull x l := by
  have low : 0 ≤ count / (count + 1) := by positivity
  have high : count / (count + 1) ≤ 1 := by
    rw [div_le_one (by positivity)]
    exact (lt_add_one count).le
  have weighted := mem_hull_weighted low high before member
  have same : count / (count + 1) * average + (1 - count / (count + 1)) * value =
      (average * count + value) / (count + 1) := by
    field_simp
    ring
  exact same ▸ weighted

end Hull
