import Hpvc.Library.Runs

/-! Sockets that must receive and send in turn, beginning with a receive. -/
namespace Alternation

inductive Direction where
  | receive | send
  deriving DecidableEq

/-- One operation, where `owed` says that the last message received has no reply yet. -/
def perform (owed : Bool) : Direction → Option Bool
  | .receive => if owed then none else some true
  | .send => if owed then some false else none

/-- What a list of operations on a fresh socket leaves owed, if all of them are legal. -/
def after (operations : List Direction) : Option Bool := Runs.run perform false operations

/-- The next receive is legal exactly if nothing is owed. -/
theorem after_receive {operations : List Direction} :
    (after (operations ++ [.receive])).isSome ↔ after operations = some false := by
  rw [after,Runs.run_snoc,← after]
  cases after operations with
  | none => simp
  | some owed => cases owed <;> simp [perform]

/-- A handler that begins with a receive and is legal once, repeated: it can be repeated
for ever exactly if it leaves nothing owed, and is legal at most once otherwise. -/
theorem after_repeated {handler rest : List Direction} {owed : Bool} (opens : handler = .receive :: rest)
    (once : after handler = some owed) (n : Nat) :
    after (List.replicate n handler).flatten =
      if n = 0 then some false else if owed = false ∨ n = 1 then some owed else none := by
  have flat (k : Nat) : (List.replicate (k + 1) handler).flatten =
      (List.replicate k handler).flatten ++ handler := by
    rw [List.replicate_succ']
    simp
  have stuck : Runs.run perform true handler = none := by
    rw [opens,Runs.run_cons]
    rfl
  induction n with
  | zero => rfl
  | succ k ih =>
    rw [flat,after,Runs.run_append,← after,ih]
    cases k with
    | zero => simpa [after] using once
    | succ k =>
      cases owed with
      | false => simpa [after] using once
      | true =>
        cases k with
        | zero => simpa using stuck
        | succ k => simp

end Alternation
