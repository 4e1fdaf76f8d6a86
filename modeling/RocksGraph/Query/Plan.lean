import RocksGraph.Foundation.Arrange
import RocksGraph.Foundation.Check

/-! Logical plans over tables of rows (`logical_plan.cc`, `order_property.cc`,
`component_planner.cc`) and the rows their operators produce
(`physical_executor_unary.cc`).

Expressions are variables, conjunctions and everything else; a `Language` gives
the meaning of everything else. A subquery inside an expression is a term of the
language: its value is a function of the variables it names. -/

set_option autoImplicit false

namespace RocksGraph.Query

open Foundation List

abbrev Row (Value : Type) := String → Value

inductive Expression (Term : Type) where
  | var (name : String)
  | and (left right : Expression Term)
  | term (term : Term)
  deriving DecidableEq

instance {Term : Type} [DecidableEq Term] : LawfulBEq (Expression Term) := inferInstance

/-- What rows depend on beyond the plan: the values of terms, the aggregates over
the rows of a group, three-valued conjunction, and the equality and the order of
values that grouping (`ValueEqual`) and sorting (`CompareValues`) use. -/
structure Language (Term Value : Type) where
  null : Value
  names : Term → List String
  value : Term → Row Value → Value
  value_congr : ∀ term (first second : Row Value),
    (∀ name ∈ names term, first name = second name) → value term first = value term second
  aggregates : Term → Bool
  summary : Expression Term → List (Row Value) → Value
  isTrue : Value → Bool
  conjunction : Value → Value → Value
  isTrue_conjunction : ∀ left right, isTrue (conjunction left right) = (isTrue left && isTrue right)
  same : Value → Value → Bool
  compare : Value → Value → Ordering
  compare_transCmp : Std.TransCmp compare

section Expressions

variable {Term Value : Type} (language : Language Term Value)

variable {expression : Expression Term}

namespace Language

/-- `CollectExpressionDependencies`. -/
def dependencies : Expression Term → List String
  | .var name => [name]
  | .and left right => dependencies left ++ dependencies right
  | .term term => language.names term

def containsAggregation : Expression Term → Bool
  | .var _ => false
  | .and left right => containsAggregation left || containsAggregation right
  | .term term => language.aggregates term

def evaluate : Expression Term → Row Value → Value
  | .var name, row => row name
  | .and left right, row => language.conjunction (evaluate left row) (evaluate right row)
  | .term term, row => language.value term row

def holds (expression : Expression Term) (row : Row Value) : Bool :=
  language.isTrue (language.evaluate expression row)

theorem evaluate_congr {first second : Row Value}
    (agree : ∀ name ∈ language.dependencies expression, first name = second name) :
    language.evaluate expression first = language.evaluate expression second := by
  induction expression with
  | var name => exact agree name mem_cons_self
  | and left right leftIh rightIh =>
    rw [evaluate, evaluate, leftIh fun name mem => agree name (mem_append_left _ mem),
      rightIh fun name mem => agree name (mem_append_right _ mem)]
  | term term => exact language.value_congr term first second agree

theorem holds_congr {first second : Row Value}
    (agree : ∀ name ∈ language.dependencies expression, first name = second name) :
    language.holds expression first = language.holds expression second :=
  congrArg language.isTrue (language.evaluate_congr agree)

end Language

def splitConjunctivePredicates : Expression Term → List (Expression Term)
  | .and left right => splitConjunctivePredicates left ++ splitConjunctivePredicates right
  | .var name => [.var name]
  | .term term => [.term term]

theorem Language.all_splitConjunctivePredicates (expression : Expression Term) (row : Row Value) :
    (splitConjunctivePredicates expression).all (language.holds · row) = language.holds expression row := by
  induction expression with
  | var | term => simp [splitConjunctivePredicates]
  | and left right leftIh rightIh =>
    rw [splitConjunctivePredicates, all_append, leftIh, rightIh]
    exact (language.isTrue_conjunction _ _).symm

theorem Language.dependencies_splitConjunctivePredicates {predicate : Expression Term}
    (mem : predicate ∈ splitConjunctivePredicates expression) :
    language.dependencies predicate ⊆ language.dependencies expression := by
  induction expression with
  | var | term => rw [mem_singleton.mp mem]; exact List.Subset.refl _
  | and left right leftIh rightIh =>
    rcases mem_append.mp mem with inLeft | inRight
    · exact subset_append_of_subset_left _ (leftIh inLeft)
    · exact subset_append_of_subset_right _ (rightIh inRight)

end Expressions

structure SortItem (Term : Type) where
  expression : Expression Term
  descending : Bool
  deriving DecidableEq

/-- `LogicalProjectionItem`: an expression under an alias, or a column passed through. -/
structure ProjectionItem (Term : Type) where
  aliasName : String
  expression : Option (Expression Term)

inductive Plan (Term Value : Type) where
  | input (columns : List String) (ordering : List (SortItem Term)) (rows : List (Row Value))
  | filter (source : Plan Term Value) (predicate : Expression Term)
  | projection (source : Plan Term Value) (items : List (ProjectionItem Term))
  | distinct (source : Plan Term Value) (items : List (ProjectionItem Term))
  | aggregation (source : Plan Term Value) (grouping aggregations : List (ProjectionItem Term))
  | sort (source : Plan Term Value) (items : List (SortItem Term))
  | skip (source : Plan Term Value) (count : Nat)
  | limit (source : Plan Term Value) (count : Nat)

section Plans

variable {Term Value : Type}

/-- `OutputColumns`; the solved symbols of these plans are the same names. -/
def Plan.columns : Plan Term Value → List String
  | .input columns _ _ => columns
  | .filter source _ | .sort source _ | .skip source _ | .limit source _ => source.columns
  | .projection _ items | .distinct _ items => items.map (·.aliasName)
  | .aggregation _ grouping aggregations => (grouping ++ aggregations).map (·.aliasName)

variable [DecidableEq Term] (language : Language Term Value)

/-- The step of `ProjectOrdering` for one item of the ordering: sorted by a
projected expression is sorted by its alias, and an item over output names is
kept as it stands. -/
def Language.projectOrderItem (items : List (ProjectionItem Term)) (item : SortItem Term) : Option (SortItem Term) :=
  match items.find? (·.expression = some item.expression) with
  | some projected => some ⟨.var projected.aliasName, item.descending⟩
  | none => if language.dependencies item.expression ⊆ items.map (·.aliasName) then some item else none

/-- `ProjectOrdering`: translate the ordering up to the first item that is lost. -/
def Language.projectOrdering (items : List (ProjectionItem Term)) : List (SortItem Term) → List (SortItem Term)
  | [] => []
  | item :: rest =>
    match language.projectOrderItem items item with
    | some projected => projected :: Language.projectOrdering items rest
    | none => []

/-- `OrderingTrait` as `AnnotateLogicalPlanMetadata` sets it. -/
def Language.orderingTrait : Plan Term Value → List (SortItem Term)
  | .input _ ordering _ => ordering
  | .filter source _ | .skip source _ | .limit source _ => Language.orderingTrait source
  | .projection source items => language.projectOrdering items (Language.orderingTrait source)
  | .distinct _ _ | .aggregation _ _ _ => []
  | .sort _ items => items

/-- `OrderingSatisfies`: the required items lead the provided ones. -/
def orderingSatisfies (provided required : List (SortItem Term)) : Bool := required.isPrefixOf provided

end Plans

section Rows

variable {Term Value : Type} (language : Language Term Value)

namespace Language

def rowOf (cells : List (String × Value)) : Row Value :=
  fun name => (cells.lookup name).getD language.null

def cells (items : List (ProjectionItem Term)) (row : Row Value) : List (String × Value) :=
  items.map fun item => (item.aliasName, match item.expression with
    | some expression => language.evaluate expression row
    | none => row item.aliasName)

/-- `CompositeValueKeyEqual` on the values of two lists of columns. -/
def sameCells (first second : List (String × Value)) : Bool :=
  first.length == second.length && (first.zip second).all fun pair => language.same pair.1.2 pair.2.2

def sameGroup (grouping : List (ProjectionItem Term)) (first second : Row Value) : Bool :=
  language.sameCells (language.cells grouping first) (language.cells grouping second)

def summaries (aggregations : List (ProjectionItem Term)) (group : List (Row Value)) :
    List (String × Value) :=
  aggregations.map fun item => (item.aliasName, match item.expression with
    | some expression => language.summary expression group
    | none => language.null)

def groupRow (grouping aggregations : List (ProjectionItem Term)) (group : Row Value × List (Row Value)) :
    Row Value :=
  language.rowOf (language.cells grouping group.1 ++ language.summaries aggregations group.2)

/-- `HashAggregationOperator`: one row for every group, and one for no rows at
all where nothing is grouped by. -/
def aggregate (grouping aggregations : List (ProjectionItem Term)) (rows : List (Row Value)) :
    List (Row Value) :=
  if grouping.isEmpty && rows.isEmpty then [language.rowOf (language.summaries aggregations [])]
  else (groupsBy (language.sameGroup grouping) rows).map (language.groupRow grouping aggregations)

/-- `CompareValues` on the values of one sort item. -/
def compareItem (item : SortItem Term) (first second : Row Value) : Ordering :=
  let order := language.compare (language.evaluate item.expression first) (language.evaluate item.expression second)
  if item.descending then order.swap else order

/-- `SortKeysComeBefore`, where rows with the same keys keep their order. -/
def inOrder (items : List (SortItem Term)) (first second : Row Value) : Prop :=
  (lexCompare language.compareItem items first second).isLE

end Language

instance (items : List (SortItem Term)) : DecidableRel (language.inOrder items) :=
  fun first second => inferInstanceAs (Decidable ((lexCompare language.compareItem items first second).isLE = true))

def Language.rows : Plan Term Value → List (Row Value)
  | .input _ _ rows => rows
  | .filter source predicate => (Language.rows source).filter (language.holds predicate)
  | .projection source items => (Language.rows source).map fun row => language.rowOf (language.cells items row)
  | .distinct source items =>
    (((Language.rows source).map (language.cells items)).eraseDupsBy language.sameCells).map language.rowOf
  | .aggregation source grouping aggregations => language.aggregate grouping aggregations (Language.rows source)
  | .sort source items => (Language.rows source).insertionSort (language.inOrder items)
  | .skip source count => (Language.rows source).drop count
  | .limit source count => (Language.rows source).take count

theorem Language.compareItem_transCmp (item : SortItem Term) : Std.TransCmp (language.compareItem item) := by
  have comparable := language.compare_transCmp
  exact transCmp_directed language.compare (language.evaluate item.expression) item.descending

instance (items : List (SortItem Term)) : IsTrans (Row Value) (language.inOrder items) where
  trans _ _ _ first second := by
    have comparable := lexCompare_transCmp language.compareItem_transCmp items
    exact Std.TransCmp.isLE_trans first second

instance (items : List (SortItem Term)) : Std.Total (language.inOrder items) where
  total first second := by
    have comparable := lexCompare_transCmp language.compareItem_transCmp items
    have swapped : lexCompare language.compareItem items second first =
        (lexCompare language.compareItem items first second).swap := Std.OrientedCmp.eq_swap
    unfold Language.inOrder
    rw [swapped]
    cases lexCompare language.compareItem items first second <;> simp

@[simp] theorem Language.rowOf_nil : language.rowOf [] = fun _ => language.null := rfl

@[simp] theorem Language.rowOf_cons (name : String) (value : Value) (cells : List (String × Value)) (other : String) :
    language.rowOf ((name, value) :: cells) other = if other = name then value else language.rowOf cells other := by
  by_cases same : other = name
  · simp [rowOf, same]
  · rw [rowOf, lookup_cons, beq_false_of_ne same, if_neg same]
    rfl

variable {cells : List (String × Value)}

theorem Language.rowOf_of_notMem {name : String}
    (absent : name ∉ cells.map Prod.fst) : language.rowOf cells name = language.null := by
  induction cells with
  | nil => rfl
  | cons cell rest ih =>
    simp only [map_cons, mem_cons, not_or] at absent
    rw [rowOf_cons, if_neg absent.1, ih absent.2]

theorem Language.rowOf_of_mem (unique : (cells.map Prod.fst).Nodup)
    {name : String} {value : Value} (mem : (name, value) ∈ cells) : language.rowOf cells name = value := by
  induction cells with
  | nil => cases mem
  | cons cell rest ih =>
    obtain ⟨first, held⟩ := cell
    simp only [map_cons, nodup_cons] at unique
    rw [rowOf_cons]
    rcases mem_cons.mp mem with same | later
    · obtain ⟨rfl, rfl⟩ := Prod.mk.inj same
      exact if_pos rfl
    · rw [if_neg, ih unique.2 later]
      rintro rfl
      exact unique.1 (mem_map_of_mem later)

@[simp] theorem Language.cells_names (items : List (ProjectionItem Term)) (row : Row Value) :
    (language.cells items row).map Prod.fst = items.map (·.aliasName) := by
  simp [cells]

end Rows

/-! ## Filters -/

section Filters

variable {Term Value : Type} [DecidableEq Term] (language : Language Term Value)

/-- One predicate of `ApplyAvailableFilters`: filter by it unless it is planned
already or names something the plan does not have. -/
def Language.applyFilter (state : List (Expression Term) × Plan Term Value) (predicate : Expression Term) :
    List (Expression Term) × Plan Term Value :=
  if predicate ∈ state.1 ∨ ¬ language.dependencies predicate ⊆ state.2.columns then state
  else (predicate :: state.1, .filter state.2 predicate)

/-- `ApplyAvailableFilters`. A filter leaves the symbols as they are, so that the
second round of its loop finds nothing more to plan. -/
def Language.applyAvailableFilters (selections planned : List (Expression Term)) (plan : Plan Term Value) :
    List (Expression Term) × Plan Term Value :=
  selections.foldl language.applyFilter (planned, plan)

/-- What `ApplyAvailableFilters` leaves to a row: every predicate that was not planned before and can be
evaluated holds. -/
def Language.passes (selections planned : List (Expression Term)) (columns : List String) (row : Row Value) : Bool :=
  selections.all fun predicate =>
    decide (predicate ∈ planned ∨ ¬ language.dependencies predicate ⊆ columns) || language.holds predicate row

theorem Language.mem_applyAvailableFilters {selections planned : List (Expression Term)} {plan : Plan Term Value}
    {predicate : Expression Term} :
    predicate ∈ (language.applyAvailableFilters selections planned plan).1 ↔
      predicate ∈ planned ∨ predicate ∈ selections ∧ language.dependencies predicate ⊆ plan.columns := by
  induction selections generalizing planned plan with
  | nil => simp [applyAvailableFilters]
  | cons first rest ih =>
    rw [applyAvailableFilters, foldl_cons, applyFilter]
    split
    case isTrue skipped =>
      rw [← applyAvailableFilters]
      grind
    case isFalse applied =>
      rw [← applyAvailableFilters, ih]
      simp only [Plan.columns]
      grind

section

variable (selections planned : List (Expression Term))
include selections planned

theorem Language.columns_applyAvailableFilters (plan : Plan Term Value) :
    (language.applyAvailableFilters selections planned plan).2.columns = plan.columns := by
  induction selections generalizing planned plan with
  | nil => rfl
  | cons first rest ih =>
    rw [applyAvailableFilters, foldl_cons, applyFilter]
    split
    case isTrue skipped => exact ih planned plan
    case isFalse applied => exact ih (first :: planned) (.filter plan first)

theorem Language.orderingTrait_applyAvailableFilters (plan : Plan Term Value) :
    language.orderingTrait (language.applyAvailableFilters selections planned plan).2 = language.orderingTrait plan := by
  induction selections generalizing planned plan with
  | nil => rfl
  | cons first rest ih =>
    rw [applyAvailableFilters, foldl_cons, applyFilter]
    split
    case isTrue skipped => exact ih planned plan
    case isFalse applied => exact ih (first :: planned) (.filter plan first)

theorem Language.rows_applyAvailableFilters (plan : Plan Term Value) :
    language.rows (language.applyAvailableFilters selections planned plan).2 =
      (language.rows plan).filter (language.passes selections planned plan.columns) := by
  induction selections generalizing planned plan with
  | nil => exact (filter_eq_self.mpr fun _ _ => rfl).symm
  | cons first rest ih =>
    rw [applyAvailableFilters, foldl_cons, applyFilter]
    split
    case isTrue skipped =>
      rw [← applyAvailableFilters, ih]
      refine filter_congr fun row _ => ?_
      simp [passes, skipped]
    case isFalse applied =>
      rw [← applyAvailableFilters, ih, rows, filter_filter]
      refine filter_congr fun row _ => ?_
      -- Once the first predicate holds, its later copies may count as planned or not.
      simp only [Plan.columns, passes, all_cons, applied]
      cases held : language.holds first row with
      | false => simp
      | true =>
        rw [Bool.and_true]
        refine all_congr rfl fun predicate => ?_
        by_cases same : predicate = first
        · simp [same, held]
        · simp [same]

end

end Filters

end RocksGraph.Query
