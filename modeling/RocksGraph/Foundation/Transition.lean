import Mathlib.Logic.Relation

/-! Executable transition systems and the rules for their runs.

A system is a partial step function. A guard restricts the actions a run may
take, judged in the state the action starts from; the guard that always holds
gives the unrestricted runs. -/

set_option autoImplicit false

namespace RocksGraph.Foundation

variable {State Action : Type}

/-- A run of `step` from the first state to the second that takes the listed
actions, every one of them meeting `guard` where it starts. -/
inductive Runs (step : State → Action → Option State) (guard : State → Action → Prop)
    (first : State) : List Action → State → Prop where
  | nil : Runs step guard first [] first
  | snoc {last next : State} {actions : List Action} {action : Action} :
      Runs step guard first actions last → guard last action →
      step last action = some next → Runs step guard first (actions ++ [action]) next

def anyAction (_ : State) (_ : Action) : Prop := True

instance (state : State) (action : Action) : Decidable (anyAction state action) :=
  instDecidableTrue

def execute (step : State → Action → Option State) (guard : State → Action → Prop)
    [∀ state action, Decidable (guard state action)] (state : State) : List Action → Option State
  | [] => some state
  | action :: rest =>
    if guard state action then (step state action).bind fun next => execute step guard next rest
    else none

variable {Record : Type} {records : List Record} {last record : Record}

theorem forall_mem_snoc {holds : Record → Prop}
    (old : ∀ record ∈ records, holds record) (new : holds last) : ∀ record ∈ records ++ [last], holds record :=
  List.forall_mem_append.mpr ⟨old, List.forall_mem_singleton.mpr new⟩

theorem pairwise_snoc {related : Record → Record → Prop} :
    (records ++ [last]).Pairwise related ↔ records.Pairwise related ∧ ∀ record ∈ records, related record last := by
  simp [List.pairwise_append]

theorem getElem?_snoc {index : Nat} :
    (records ++ [last])[index]? = some record ↔
      records[index]? = some record ∨ index = records.length ∧ record = last := by
  grind

theorem split_concat {before after : List Record}
    (split : records ++ [last] = before ++ record :: after) :
    (after = [] ∧ record = last ∧ records = before) ∨
      ∃ rest, after = rest ++ [last] ∧ records = before ++ record :: rest := by
  rcases List.eq_nil_or_concat after with rfl | ⟨rest, final, rfl⟩
  · obtain ⟨rfl, same⟩ := List.append_inj' split rfl
    cases same
    exact .inl ⟨rfl, rfl, rfl⟩
  · rw [List.concat_eq_append, ← List.cons_append, ← List.append_assoc] at split
    obtain ⟨rfl, same⟩ := List.append_inj' split rfl
    cases same
    exact .inr ⟨rest, List.concat_eq_append, rfl⟩

variable {step : State → Action → Option State} {guard : State → Action → Prop}

theorem execute_cons [∀ state action, Decidable (guard state action)] {state next : State}
    {action : Action} (allowed : guard state action) (taken : step state action = some next)
    (rest : List Action) :
    execute step guard state (action :: rest) = execute step guard next rest := by
  rw [execute, if_pos allowed, taken, Option.bind_some]

variable {first last : State} {actions : List Action}

theorem Runs.append {middle : State} {left right : List Action}
    (before : Runs step guard first left middle) (after : Runs step guard middle right last) :
    Runs step guard first (left ++ right) last := by
  induction after with
  | nil => simpa using before
  | snoc _ allowed taken ih =>
    rw [← List.append_assoc]
    exact .snoc ih allowed taken

theorem Runs.mono {weaker : State → Action → Prop} (run : Runs step guard first actions last)
    (implies : ∀ state action, guard state action → weaker state action) : Runs step weaker first actions last := by
  induction run with
  | nil => exact .nil
  | snoc _ allowed taken ih => exact .snoc ih (implies _ _ allowed) taken

/-- The invariant rule: what holds first and is kept by every guarded step
holds wherever a guarded run ends. -/
theorem Runs.invariant
    (run : Runs step guard first actions last) (inv : State → Prop) (initially : inv first)
    (preserved : ∀ state action next, inv state → guard state action →
      step state action = some next → inv next) : inv last := by
  induction run with
  | nil => exact initially
  | snoc _ allowed taken ih => exact preserved _ _ _ ih allowed taken

/-- The two-state rule: a reflexive and transitive relation that every guarded
step from an invariant state satisfies relates the two ends of a run. -/
theorem Runs.relates (run : Runs step guard first actions last) (inv : State → Prop)
    (rel : State → State → Prop) (initially : inv first)
    (preserved : ∀ state action next, inv state → guard state action →
      step state action = some next → inv next) (refl : ∀ state, rel state state)
    (trans : ∀ {a b c : State}, rel a b → rel b c → rel a c)
    (related : ∀ state action next, inv state → guard state action →
      step state action = some next → rel state next) : rel first last := by
  induction run with
  | nil => exact refl _
  | snoc before allowed taken ih =>
    exact trans ih
      (related _ _ _ (before.invariant inv initially preserved) allowed taken)

theorem runs_of_execute [∀ state action, Decidable (guard state action)]
    (executed : execute step guard first actions = some last) :
    Runs step guard first actions last := by
  induction actions generalizing first with
  | nil =>
    cases executed
    exact .nil
  | cons action rest ih =>
    unfold execute at executed
    split at executed
    next allowed =>
      obtain ⟨next, taken, executed⟩ := Option.bind_eq_some_iff.mp executed
      exact Runs.append (.snoc .nil allowed taken) (ih executed)
    · cases executed

end RocksGraph.Foundation
