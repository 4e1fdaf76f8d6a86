import Mathlib.Algebra.Group.Int.Defs

/-! Integer arithmetic of the evaluator (`expression_evaluator.cc`).

An operation of `int64_t` whose result does not fit is undefined. The evaluator
tests for that with operations of `int64_t`, which have to fit themselves. -/

set_option autoImplicit false

namespace RocksGraph.Values

/-- An error is thrown, and nothing comes out of an undefined operation. -/
abbrev Machine := ExceptT String Option

abbrev FitsInt64 (value : Int) : Prop := -2 ^ 63 ≤ value ∧ value ≤ 2 ^ 63 - 1

def int64 (exact : Int) : Machine Int := if FitsInt64 exact then some (.ok exact) else none

variable (left right : Int)

def int64Quotient : Machine Int := if right = 0 then none else int64 (left.tdiv right)

/-- `%` is undefined where `/` is. -/
def int64Remainder : Machine Int := do
  let _ ← int64Quotient left right
  return left.tmod right

def addWouldOverflow : Machine Bool :=
  if 0 < right then return (← int64 (2 ^ 63 - 1 - right)) < left
  else if right < 0 then return left < (← int64 (-2 ^ 63 - right))
  else return false

def subtractWouldOverflow : Machine Bool :=
  if right < 0 then return (← int64 (2 ^ 63 - 1 + right)) < left
  else if 0 < right then return left < (← int64 (-2 ^ 63 + right))
  else return false

def multiplyWouldOverflow : Machine Bool :=
  if left = 0 ∨ right = 0 then return false
  else if left = -1 ∧ right = -2 ^ 63 ∨ right = -1 ∧ left = -2 ^ 63 then return true
  else if 0 < left then
    if 0 < right then return (← int64Quotient (2 ^ 63 - 1) right) < left
    else return right < (← int64Quotient (-2 ^ 63) left)
  else if 0 < right then return left < (← int64Quotient (-2 ^ 63) right)
  else return left < (← int64Quotient (2 ^ 63 - 1) right)

inductive ArithmeticOperator where
  | add
  | subtract
  | multiply
  | divide
  | modulo
  deriving DecidableEq, Repr

def evaluateArithmetic : ArithmeticOperator → Machine Int
  | .add => do
    if ← addWouldOverflow left right then throw "integer addition overflow"
    int64 (left + right)
  | .subtract => do
    if ← subtractWouldOverflow left right then throw "integer subtraction overflow"
    int64 (left - right)
  | .multiply => do
    if ← multiplyWouldOverflow left right then throw "integer multiplication overflow"
    int64 (left * right)
  | .divide => do
    if right = 0 then throw "division by zero"
    if left = -2 ^ 63 ∧ right = -1 then throw "integer division overflow"
    int64Quotient left right
  | .modulo => do
    if right = 0 then throw "modulo by zero"
    if left = -2 ^ 63 ∧ right = -1 then throw "integer modulo overflow"
    int64Remainder left right

def evaluateUnaryMinus (value : Int) : Machine Int := do
  if value = -2 ^ 63 then throw "integer negation overflow"
  int64 (-value)

def ArithmeticOperator.exact : ArithmeticOperator → Int
  | .add => left + right
  | .subtract => left - right
  | .multiply => left * right
  | .divide => left.tdiv right
  | .modulo => left.tmod right

/-- There is no exact result that fits, or the remainder of the least integer by -1 is asked for. -/
def ArithmeticOperator.Refused : ArithmeticOperator → Prop
  | .divide | .modulo => right = 0 ∨ left = -2 ^ 63 ∧ right = -1
  | operator => ¬ FitsInt64 (operator.exact left right)

/-- What is not refused comes out exactly, and what is refused is an error. -/
def Settled (run : Machine Int) (exact : Int) (refused : Prop) : Prop :=
  (¬ refused → run = some (.ok exact)) ∧ (refused → ∃ message, run = some (.error message))

variable {left right}

theorem int64_eq {value : Int} (fits : FitsInt64 value) : int64 value = some (.ok value) := if_pos fits

theorem int64Quotient_eq (fits : FitsInt64 left) (divisor : right ≠ 0) (regular : ¬ (left = -2 ^ 63 ∧ right = -1)) :
    int64Quotient left right = some (.ok (left.tdiv right)) := by
  rw [int64Quotient, if_neg divisor, int64_eq]
  have sizes : right = 1 ∨ right = -1 ∨ 2 ≤ right.natAbs := by omega
  rcases sizes with rfl | rfl | large
  · rw [Int.tdiv_one]
    exact fits
  · rw [Int.tdiv_neg, Int.tdiv_one]
    omega
  · have size : (left.tdiv right).natAbs = left.natAbs / right.natAbs := Int.natAbs_tdiv left right
    have half : left.natAbs / right.natAbs ≤ left.natAbs / 2 := Nat.div_le_div_left large (by decide)
    omega

theorem test_eq {run : Machine Int} {value : Int} {test : Int → Prop} {overflow : Prop} [DecidablePred test]
    [Decidable overflow] (computed : run = some (.ok value)) (decides : test value ↔ overflow) :
    (do return decide (test (← run)) : Machine Bool) = some (.ok (decide overflow)) := by
  rw [computed, ← decide_eq_decide.mpr decides]
  rfl

theorem lt_neg_tdiv_iff (bound : Int) (positive : 0 < right) (nonneg : 0 ≤ left) :
    bound < -left.tdiv right ↔ left < -bound * right := by
  rw [← Int.ediv_lt_iff_lt_mul positive, ← Int.tdiv_eq_ediv_of_nonneg nonneg]
  omega

section

variable (fitsLeft : FitsInt64 left) (fitsRight : FitsInt64 right)
include fitsLeft fitsRight

theorem addWouldOverflow_eq : addWouldOverflow left right = some (.ok (decide (¬ FitsInt64 (left + right)))) := by
  unfold addWouldOverflow
  split
  · apply test_eq (int64_eq _) <;> omega
  · split
    · apply test_eq (int64_eq _) <;> omega
    · rw [decide_eq_false (by omega)]
      rfl

theorem subtractWouldOverflow_eq :
    subtractWouldOverflow left right = some (.ok (decide (¬ FitsInt64 (left - right)))) := by
  unfold subtractWouldOverflow
  split
  · apply test_eq (int64_eq _) <;> omega
  · split
    · apply test_eq (int64_eq _) <;> omega
    · rw [decide_eq_false (by omega)]
      rfl

theorem multiplyWouldOverflow_eq :
    multiplyWouldOverflow left right = some (.ok (decide (¬ FitsInt64 (left * right)))) := by
  unfold multiplyWouldOverflow
  split
  next zero =>
    rw [Int.mul_eq_zero.mpr zero]
    rfl
  split
  next least =>
    rcases least with ⟨rfl, rfl⟩ | ⟨rfl, rfl⟩ <;> rfl
  -- each quotient is rounded towards zero, and the product has the sign that the branch knows
  split <;> split
  · have sign := Int.mul_pos ‹0 < left› ‹0 < right›
    apply test_eq (int64Quotient_eq _ _ _) <;> try omega
    rw [Int.tdiv_eq_ediv_of_nonneg (by decide), Int.ediv_lt_iff_lt_mul (by omega)]
    omega
  · have sign : left * right < 0 := Int.mul_neg_of_pos_of_neg (by omega) (by omega)
    apply test_eq (int64Quotient_eq _ _ _) <;> try omega
    rw [Int.neg_tdiv, lt_neg_tdiv_iff _ (by omega) (by decide), Int.neg_mul, Int.mul_comm]
    omega
  · have sign : left * right < 0 := Int.mul_neg_of_neg_of_pos (by omega) (by omega)
    apply test_eq (int64Quotient_eq _ _ _) <;> try omega
    rw [Int.neg_tdiv, lt_neg_tdiv_iff _ (by omega) (by decide), Int.neg_mul]
    omega
  · have sign : 0 < left * right := Int.mul_pos_of_neg_of_neg (by omega) (by omega)
    apply test_eq (int64Quotient_eq _ _ _) <;> try omega
    rw [← Int.neg_neg right, Int.tdiv_neg, lt_neg_tdiv_iff _ (by omega) (by decide), Int.neg_mul_neg, Int.neg_neg]
    omega

end

theorem Settled.guard {condition refused : Prop} [Decidable condition] {message : String} {run : Machine Int}
    {exact : Int} (covered : condition → refused) (settled : ¬ condition → Settled run exact refused) :
    Settled (do
      if condition then throw message
      run) exact refused := by
  by_cases holds : condition
  · rw [if_pos holds]
    exact ⟨fun regular => absurd (covered holds) regular, fun _ => ⟨message, rfl⟩⟩
  · rw [if_neg holds]
    exact settled holds

theorem settled_of_test {test : Machine Bool} {message : String} {exact : Int}
    (tested : test = some (.ok (decide (¬ FitsInt64 exact)))) :
    Settled (do
      if ← test then throw message
      int64 exact) exact (¬ FitsInt64 exact) := by
  rw [tested]
  exact .guard of_decide_eq_true fun fits =>
    ⟨int64_eq ∘ Decidable.not_not.mp, fun refused => absurd (decide_eq_true refused) fits⟩

/-- Integer arithmetic is exact or an error, and nothing on the way is undefined. -/
theorem arithmetic_settled (left right : Int64) :
    (∀ operator : ArithmeticOperator, Settled (evaluateArithmetic left.toInt right.toInt operator)
      (operator.exact left.toInt right.toInt) (operator.Refused left.toInt right.toInt)) ∧
    Settled (evaluateUnaryMinus left.toInt) (-left.toInt) (¬ FitsInt64 (-left.toInt)) := by
  have fits (value : Int64) : FitsInt64 value.toInt := by
    have below := value.toInt_lt
    have above := value.le_toInt
    omega
  constructor
  · intro operator
    cases operator with
    | add => exact settled_of_test (addWouldOverflow_eq (fits left) (fits right))
    | subtract => exact settled_of_test (subtractWouldOverflow_eq (fits left) (fits right))
    | multiply => exact settled_of_test (multiplyWouldOverflow_eq (fits left) (fits right))
    | divide =>
      refine .guard .inl fun divisor => .guard .inr fun regular => ⟨fun _ => ?_, fun refused => ?_⟩
      · exact int64Quotient_eq (fits left) divisor regular
      · exact absurd refused (not_or.mpr ⟨divisor, regular⟩)
    | modulo =>
      refine .guard .inl fun divisor => .guard .inr fun regular => ⟨fun _ => ?_, fun refused => ?_⟩
      · rw [int64Remainder, int64Quotient_eq (fits left) divisor regular]
        rfl
      · exact absurd refused (not_or.mpr ⟨divisor, regular⟩)
  · refine .guard (by omega) fun least => ⟨fun _ => int64_eq ?_, fun refused => absurd refused ?_⟩
    · have := fits left
      omega
    · have := fits left
      omega

end RocksGraph.Values
