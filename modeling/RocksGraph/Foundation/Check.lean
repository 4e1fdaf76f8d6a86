import Mathlib.Data.List.Forall2

/-! Code that throws, and what follows when it does not. -/

set_option autoImplicit false

namespace RocksGraph.Foundation

open List

variable {Error Value Result : Type}

/-- `RG_CHECK`: throw the error unless the condition holds. -/
def check (condition : Prop) [Decidable condition] (error : Error) : Except Error Unit :=
  if condition then .ok () else .error error

@[simp] theorem check_eq_ok {condition : Prop} [Decidable condition] {error : Error} {value : Unit} :
    check condition error = .ok value ↔ condition := by
  unfold check
  split <;> simp_all

variable {action : Except Error Value} {result : Result} {read : Value → Except Error Result} {values : List Value}

theorem bind_eq_ok {next : Value → Except Error Result} :
    action >>= next = .ok result ↔ ∃ value, action = .ok value ∧ next value = .ok result := by
  cases action <;> simp [bind, Except.bind]

theorem check_bind_eq_ok {action : Except Error Unit} {next : Unit → Except Error Result} :
    action >>= next = .ok result ↔ action = .ok () ∧ next () = .ok result := by
  rw [bind_eq_ok]
  exact ⟨fun ⟨_, done, rest⟩ => ⟨done, rest⟩, fun ⟨done, rest⟩ => ⟨(), done, rest⟩⟩

theorem map_eq_ok {change : Value → Result} :
    change <$> action = .ok result ↔ ∃ value, action = .ok value ∧ change value = result := by
  cases action <;> simp [Functor.map, Except.map]

theorem pure_eq_ok {value result : Value} : (pure value : Except Error Value) = .ok result ↔ result = value :=
  ⟨fun same => (Except.ok.inj same).symm, fun same => same ▸ rfl⟩

theorem toOption_eq_some {value : Value} : action.toOption = some value ↔ action = .ok value := by
  cases action <;> simp [Except.toOption]

theorem mapM_eq_some {read : Value → Option Result} : ∀ {results : List Result},
    values.mapM read = some results ↔ values.map read = results.map some := by
  induction values with
  | nil =>
    intro results
    cases results <;> simp
  | cons value rest ih =>
    intro results
    rw [mapM_cons, map_cons]
    cases results with
    | nil => cases read value <;> cases rest.mapM read <;> simp
    | cons result others =>
      rw [map_cons, cons.injEq, ← ih]
      cases read value <;> cases rest.mapM read <;> simp

theorem forall₂_of_mapM {results : List Result} (done : values.mapM read = .ok results) :
    List.Forall₂ (fun value result => read value = .ok result) values results := by
  induction values generalizing results with
  | nil =>
    cases done
    exact .nil
  | cons value rest ih =>
    rw [mapM_cons, bind_eq_ok] at done
    obtain ⟨result, first, done⟩ := done
    rw [bind_eq_ok] at done
    obtain ⟨others, later, done⟩ := done
    cases done
    exact .cons first (ih later)

theorem mapM_eq_ok {result : Value → Result}
    (each : ∀ value ∈ values, read value = .ok (result value)) : values.mapM read = .ok (values.map result) := by
  induction values with
  | nil => rfl
  | cons value rest ih =>
    rw [forall_mem_cons] at each
    rw [mapM_cons, each.1, ih each.2]
    rfl

theorem forM_eq_ok {action : Value → Except Error Unit} {result : Unit} :
    forM values action = .ok result ↔ ∀ value ∈ values, action value = .ok () := by
  induction values with
  | nil => simp [pure, Except.pure]
  | cons value rest ih =>
    rw [forM_cons, bind_eq_ok, forall_mem_cons, ih]
    exact ⟨fun ⟨_, first, others⟩ => ⟨first, others⟩, fun ⟨first, others⟩ => ⟨(), first, others⟩⟩

end RocksGraph.Foundation
