import Mathlib.Data.List.Basic

/-! Code that changes a state and may throw.

What a procedure has changed before it throws stays changed, so that a handler
finds the state as the exception left it. The rules follow the constructs. -/

set_option autoImplicit false

namespace RocksGraph.Foundation

variable {State Error Value Result : Type}

abbrev Procedure (State Error : Type) := ExceptT Error (StateM State)

def Procedure.outcome (procedure : Procedure State Error Value) (state : State) : Except Error Value × State :=
  procedure.run.run state

/-- From every state with `before`, the procedure returns with `after` or throws
with `thrown`. -/
def Meets (before : State → Prop) (procedure : Procedure State Error Value)
    (after : Value → State → Prop) (thrown : Error → State → Prop) : Prop :=
  ∀ state, before state →
    match procedure.outcome state with
    | (.ok value, next) => after value next
    | (.error error, next) => thrown error next

namespace Meets

variable {before : State → Prop} {procedure : Procedure State Error Value}
  {after : Value → State → Prop} {thrown : Error → State → Prop}

variable {before' : State → Prop} {thrown' : Error → State → Prop} {change : State → State}

@[elab_as_elim] theorem settled {goal : Except Error Value × State → Prop} {state : State}
    (meets : Meets before procedure after thrown) (start : before state)
    (returned : ∀ value next, after value next → goal (.ok value, next))
    (failed : ∀ error next, thrown error next → goal (.error error, next)) : goal (procedure.outcome state) := by
  have result := meets state start
  rcases outcome : procedure.outcome state with ⟨value | error, next⟩ <;> rw [outcome] at result
  · exact failed _ _ result
  · exact returned _ _ result

theorem weaken {after' : Value → State → Prop}
    (meets : Meets before procedure after thrown) (start : ∀ state, before' state → before state)
    (returned : ∀ value state, after value state → after' value state)
    (failed : ∀ error state, thrown error state → thrown' error state) :
    Meets before' procedure after' thrown' :=
  fun state holds => meets.settled (start state holds) returned failed

theorem given (meets : Meets before procedure after thrown)
    (start : ∀ state, before' state → before state) : Meets before' procedure after thrown :=
  meets.weaken start (fun _ _ => id) fun _ _ => id

theorem leaves {holds : State → Prop} (meets : Meets before procedure (fun _ => holds) fun _ => holds) {state : State}
    (start : before state) : holds (procedure.outcome state).2 :=
  meets.settled start (fun _ _ => id) fun _ _ => id

theorem pure {value : Value} (holds : ∀ state, before state → after value state) :
    Meets before (Pure.pure value) after thrown :=
  holds

theorem throw {error : Error} (holds : ∀ state, before state → thrown error state) :
    Meets before (throw error : Procedure State Error Value) after thrown :=
  holds

theorem bind {next : Value → Procedure State Error Result} {final : Result → State → Prop}
    (first : Meets before procedure after thrown) (rest : ∀ value, Meets (after value) (next value) final thrown) :
    Meets before (procedure >>= next) final thrown := by
  intro state holds
  have unfolded : (procedure >>= next).outcome state =
      match procedure.outcome state with
      | (.ok value, middle) => (next value).outcome middle
      | (.error error, middle) => (.error error, middle) := by
    show ((ExceptT.run procedure >>= ExceptT.bindCont next) : StateM State _) state = _
    simp only [Procedure.outcome, Bind.bind, StateT.bind, StateT.run, ExceptT.run]
    cases procedure state with
    | mk value middle => cases value <;> rfl
  rw [unfolded]
  exact first.settled holds rest fun _ _ => id

theorem get : Meets before (MonadState.get : Procedure State Error State)
    (fun value state => value = state ∧ before state) thrown :=
  fun _ holds => ⟨rfl, holds⟩

theorem read {next : State → Procedure State Error Value}
    (rest : ∀ state, before state → Meets (fun now => now = state) (next state) after thrown) :
    Meets before (MonadState.get >>= next) after thrown := by
  apply bind get
  intro value
  rintro state ⟨rfl, holds⟩
  exact rest value holds value rfl

theorem modify {after : Unit → State → Prop}
    (holds : ∀ state, before state → after () (change state)) :
    Meets before (MonadState.modifyGet fun state => ((), change state) : Procedure State Error Unit)
      after thrown :=
  holds

theorem changed :
    Meets before (MonadState.modifyGet fun state => ((), change state) : Procedure State Error Unit)
      (fun _ next => ∃ state, before state ∧ next = change state) thrown :=
  fun state holds => ⟨state, holds, rfl⟩

theorem attempt {handler : Error → Procedure State Error Value}
    (body : Meets before procedure after thrown)
    (handles : ∀ error, Meets (thrown error) (handler error) after thrown') :
    Meets before (tryCatch procedure handler) after thrown' := by
  intro state holds
  have unfolded : (tryCatch procedure handler).outcome state =
      match procedure.outcome state with
      | (.ok value, middle) => (.ok value, middle)
      | (.error error, middle) => (handler error).outcome middle := by
    show (ExceptT.tryCatch procedure handler : Procedure State Error Value) state = _
    simp only [ExceptT.tryCatch, ExceptT.mk, Procedure.outcome, Bind.bind, StateT.bind, StateT.run, ExceptT.run]
    cases procedure state with
    | mk value middle => cases value <;> rfl
  rw [unfolded]
  exact body.settled holds (fun _ _ => id) handles

end Meets

end RocksGraph.Foundation
