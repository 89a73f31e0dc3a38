import Mathlib.Algebra.BigOperators.Group.List.Basic
import Mathlib.Algebra.Group.Basic
import Mathlib.Logic.Function.Basic

/-! Accounts whose balances are to be backed by a list of items: each item accounts for
an amount in each account, and a balance is the sum over the items. -/
namespace Ledger

variable {V τ A : Type*} [DecidableEq V]

/-- Add an amount to one account. -/
def post [Add A] (balance : V → A) (v : V) (a : A) : V → A := Function.update balance v (balance v + a)

/-- Amounts that are translated term by term. -/
theorem comp_post {B : Type*} [Add A] [Add B] {f : A → B} (add : ∀ a b, f (a + b) = f a + f b)
    (balance : V → A) (v : V) (a : A) : f ∘ post balance v a = post (f ∘ balance) v (f a) := by
  unfold post
  rw [Function.comp_update,add]
  rfl

variable [AddCommGroup A]

theorem post_apply (balance : V → A) (w : V) (a : A) (v : V) :
    post balance w a v = balance v + if v = w then a else 0 := by
  by_cases same : v = w
  · simp [post,same]
  · simp [post,same]

def Backed (entry : V → τ → A) (balance : V → A) (items : List τ) : Prop :=
  ∀ v, balance v = (items.map (entry v)).sum

variable {entry : V → τ → A} {balance : V → A} {items : List τ}

omit [DecidableEq V] in
/-- A new item that accounts for nothing yet. -/
theorem Backed.append (backed : Backed entry balance items) {x : τ} (blank : ∀ v, entry v x = 0) :
    Backed entry balance (items ++ [x]) := by
  intro v
  simp [backed v,blank v]

/-- A new item together with the amount it accounts for. -/
theorem Backed.append_post (backed : Backed entry balance items) {x : τ} {w : V} {a : A}
    (accounts : ∀ v, entry v x = if v = w then a else 0) :
    Backed entry (post balance w a) (items ++ [x]) := by
  intro v
  rw [post_apply]
  simp [backed v,accounts v]

omit [DecidableEq V] in
theorem sum_set {f : τ → A} {k : Nat} {x : τ} (here : items[k]? = some x) (y : τ) :
    ((items.set k y).map f).sum = (items.map f).sum + (f y - f x) := by
  obtain ⟨bound, is⟩ := List.getElem?_eq_some_iff.mp here
  rw [List.map_set,List.sum_set',dif_pos (by simpa using bound),List.getElem_map,is,neg_add_eq_sub]

/-- An amount is posted while an item changes: the balances stay backed exactly if the
change of the item accounts for it. -/
theorem Backed.post_iff (backed : Backed entry balance items) {k : Nat} {x : τ}
    (here : items[k]? = some x) (y : τ) (w : V) (a : A) :
    Backed entry (post balance w a) (items.set k y) ↔
      ∀ v, entry v y = entry v x + if v = w then a else 0 := by
  apply forall_congr'
  intro v
  rw [post_apply,sum_set here y,backed v,add_right_inj,eq_sub_iff_add_eq,add_comm]
  exact eq_comm

omit [DecidableEq V] in
/-- An account that no item has anything to do with is empty. -/
theorem Backed.settled (backed : Backed entry balance items) {v : V} (none : ∀ x ∈ items, entry v x = 0) :
    balance v = 0 := by
  rw [backed v]
  exact List.sum_eq_zero fun a member => by
    obtain ⟨x, hx, rfl⟩ := List.mem_map.mp member
    exact none x hx

omit [DecidableEq V] in
theorem sum_filter (p : τ → Bool) (f : τ → A) (l : List τ) :
    ((l.filter p).map f).sum = (l.map fun x => if p x then f x else 0).sum := by
  induction l with
  | nil => rfl
  | cons x rest ih => by_cases kept : p x = true <;> simp [kept,ih]

end Ledger
