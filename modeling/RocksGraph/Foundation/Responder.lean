import Mathlib.Data.Option.Basic

/-! Components that answer calls, and when one of them answers as another.

A component takes a call in a state to the next state and an answer. It may end
at a call, and then it answers nothing any more. -/

set_option autoImplicit false

namespace RocksGraph.Foundation

variable {State Left Right Call Answer : Type}

def answers (respond : State → Call → Option (State × Answer)) : State → List Call → List (Option Answer)
  | _, [] => []
  | state, call :: rest =>
    match respond state call with
    | none => [none]
    | some (next, answer) => some answer :: answers respond next rest

def CallsMeet (respond : State → Call → Option (State × Answer)) (guard : State → Call → Prop) :
    State → List Call → Prop
  | _, [] => True
  | state, call :: rest => guard state call ∧
    ∀ next answer, respond state call = some (next, answer) → CallsMeet respond guard next rest

instance decidableCallsMeet {respond : State → Call → Option (State × Answer)} {guard : State → Call → Prop}
    [∀ state call, Decidable (guard state call)] :
    (state : State) → (calls : List Call) → Decidable (CallsMeet respond guard state calls)
  | _, [] => isTrue trivial
  | state, call :: rest =>
    match responded : respond state call with
    | none => decidable_of_iff (guard state call) (by simp [CallsMeet, responded])
    | some (next, answer) =>
      have : Decidable (CallsMeet respond guard next rest) := decidableCallsMeet next rest
      decidable_of_iff (guard state call ∧ CallsMeet respond guard next rest) (by
        simp [CallsMeet, responded])

/-- A relation that every guarded call keeps, with equal answers on both sides,
makes the two components answer alike. -/
theorem answers_eq {left : Left → Call → Option (Left × Answer)} {right : Right → Call → Option (Right × Answer)}
    {guard : Right → Call → Prop} (related : Left → Right → Prop)
    (kept : ∀ first second call, related first second → guard second call →
      Option.Rel (fun here there => related here.1 there.1 ∧ here.2 = there.2) (left first call) (right second call))
    {first : Left} {second : Right} (start : related first second) {calls : List Call}
    (guarded : CallsMeet right guard second calls) : answers left first calls = answers right second calls := by
  induction calls generalizing first second with
  | nil => rfl
  | cons call rest ih =>
    have both := kept first second call start guarded.1
    rw [answers, answers]
    cases here : left first call with
    | none =>
      cases there : right second call with
      | none => rfl
      | some => simp [here, there] at both
    | some this =>
      cases there : right second call with
      | none => simp [here, there] at both
      | some that =>
        rw [here, there, Option.rel_some_some] at both
        have later := guarded.2 that.1 that.2 there
        simp only [both.2, ih both.1 later]

end RocksGraph.Foundation
