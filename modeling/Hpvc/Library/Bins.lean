import Mathlib.Data.List.Nodup
import Mathlib.Data.List.Perm.Basic
import Mathlib.Logic.Function.Basic

/-! Items filed in bins: every bin keeps a list, and the lists agree with the place
where each item really is. Moving one item is stated as a balance of entries, so
that a move to the bin the item is already in needs no separate treatment. -/
namespace Bins

variable {α β : Type*} [DecidableEq α] [DecidableEq β]

/-- Every item is listed once, in the bin it is at, and nothing else is listed. -/
structure Accurate (item : α → Prop) (bin : β → Prop) (home : α → β)
    (listed : β → List α) : Prop where
  home_bin : ∀ v, item v → bin (home v)
  only_items : ∀ b, bin b → ∀ v ∈ listed b, item v
  count : ∀ b, bin b → ∀ v, item v → (listed b).count v = if home v = b then 1 else 0

variable {item : α → Prop} {bin : β → Prop} {home : α → β} {listed listed' : β → List α}

theorem Accurate.mem_iff (filed : Accurate item bin home listed) {b : β} (hb : bin b) {v : α} :
    v ∈ listed b ↔ item v ∧ home v = b := by
  constructor
  · intro member
    have hv := filed.only_items b hb v member
    have pos := List.count_pos_iff.mpr member
    rw [filed.count b hb v hv] at pos
    refine ⟨hv,?_⟩
    by_contra other
    simp [other] at pos
  · rintro ⟨hv,at_b⟩
    apply List.count_pos_iff.mp
    simp [filed.count b hb v hv,at_b]

theorem Accurate.nodup (filed : Accurate item bin home listed) {b : β} (hb : bin b) :
    (listed b).Nodup := by
  apply List.nodup_iff_count_le_one.mpr
  intro v
  by_cases member : v ∈ listed b
  · rw [filed.count b hb v (filed.only_items b hb v member)]
    split <;> omega
  · simp [List.count_eq_zero_of_not_mem member]

/-- Adding a fresh item to the list of one bin files it there. -/
theorem Accurate.add (filed : Accurate item bin home listed) (listed' : β → List α)
    {v : α} {t : β} (fresh : ¬ item v) (ht : bin t) (lists : ∀ b, bin b → listed' b =
      if b = t then listed b ++ [v] else listed b) :
    Accurate (fun x => item x ∨ x = v) bin (Function.update home v t) listed' where
  home_bin x hx := by
    by_cases same : x = v
    · simpa [same] using ht
    · simpa [same] using filed.home_bin x (hx.resolve_right same)
  only_items b hb x member := by
    rw [lists b hb] at member
    split at member
    · rcases List.mem_append.mp member with old | new
      · exact .inl (filed.only_items b hb x old)
      · exact .inr (List.mem_singleton.mp new)
    · exact .inl (filed.only_items b hb x member)
  count b hb x hx := by
    have unlisted : ∀ c, bin c → (listed c).count v = 0 := fun c hc =>
      List.count_eq_zero_of_not_mem fun member => fresh (filed.only_items c hc v member)
    rw [lists b hb]
    by_cases same : x = v
    · subst x
      by_cases at_t : b = t
      · simp [at_t,unlisted t ht]
      · simp [at_t,unlisted b hb,Ne.symm at_t]
    · have old := filed.count b hb x (hx.resolve_right same)
      split <;> simp [same,old,Ne.symm same]

/-- One entry of `v` less where it was and one more at `t` moves it to `t`. -/
theorem Accurate.move (filed : Accurate item bin home listed) {v : α} {t : β}
    (hv : item v) (ht : bin t)
    (balance : ∀ b, bin b → ∀ x,
      (listed' b).count x + (if home v = b ∧ x = v then 1 else 0) =
        (listed b).count x + (if t = b ∧ x = v then 1 else 0)) :
    Accurate item bin (Function.update home v t) listed' where
  home_bin x hx := by
    by_cases same : x = v
    · simpa [same] using ht
    · simpa [same] using filed.home_bin x hx
  only_items b hb x member := by
    by_cases same : x = v
    · exact same ▸ hv
    · have eq := balance b hb x
      simp only [same,and_false,if_false,Nat.add_zero] at eq
      exact filed.only_items b hb x (List.count_pos_iff.mp (eq ▸ List.count_pos_iff.mpr member))
  count b hb x hx := by
    have eq := balance b hb x
    have old := filed.count b hb x hx
    by_cases same : x = v
    · subst x
      simp only [and_true,Function.update_self] at eq ⊢
      omega
    · simp only [same,and_false,if_false,Nat.add_zero] at eq
      rw [Function.update_of_ne same,eq,old]

/-- Deleting the entry at a position takes exactly that value off the count. -/
theorem count_eraseIdx (l : List α) {i : Nat} {v : α} (found : l[i]? = some v) (x : α) :
    (l.eraseIdx i).count x + (if x = v then 1 else 0) = l.count x := by
  obtain ⟨bound,value⟩ := List.getElem?_eq_some_iff.mp found
  have perm := List.getElem_cons_eraseIdx_perm bound
  rw [← perm.count_eq x,List.count_cons,value]
  by_cases same : x = v
  · simp [same]
  · simp [same,Ne.symm same]

end Bins
