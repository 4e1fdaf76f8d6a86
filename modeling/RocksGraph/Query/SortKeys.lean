import RocksGraph.Query.Plan

/-! What the sort operators compare (`physical_executor_unary.cc`).

The graph changes while a plan runs, so a row is taken together with the graph
that its consumer finds when it gets the row. Everything else that an expression
may depend on, such as the random numbers of `rand()`, is part of that graph. -/

set_option autoImplicit false

namespace RocksGraph.Query

open Foundation

variable {Graph Term Value : Type}

structure Handed (Graph Value : Type) where
  row : Row Value
  graph : Graph

/-- A `Language` whose terms read the graph. -/
structure GraphLanguage (Graph Term Value : Type) where
  null : Value
  names : Term → List String
  value : Term → Graph → Row Value → Value
  value_congr : ∀ term graph (first second : Row Value),
    (∀ name ∈ names term, first name = second name) → value term graph first = value term graph second
  aggregates : Term → Bool
  summary : Expression Term → List (Handed Graph Value) → Value
  isTrue : Value → Bool
  conjunction : Value → Value → Value
  isTrue_conjunction : ∀ left right, isTrue (conjunction left right) = (isTrue left && isTrue right)
  same : Value → Value → Bool
  compare : Value → Value → Ordering
  compare_transCmp : Std.TransCmp compare

namespace GraphLanguage

variable (language : GraphLanguage Graph Term Value)

def reading (graph : Graph) : Language Term Value where
  null := language.null
  names := language.names
  value term row := language.value term graph row
  value_congr term first second agree := language.value_congr term graph first second agree
  aggregates := language.aggregates
  summary expression rows := language.summary expression (rows.map fun row => ⟨row, graph⟩)
  isTrue := language.isTrue
  conjunction := language.conjunction
  isTrue_conjunction := language.isTrue_conjunction
  same := language.same
  compare := language.compare
  compare_transCmp := language.compare_transCmp

def evaluate (expression : Expression Term) (handed : Handed Graph Value) : Value :=
  (language.reading handed.graph).evaluate expression handed.row

def compareItem (item : SortItem Term) (first second : Handed Graph Value) : Ordering :=
  let order := language.compare (language.evaluate item.expression first) (language.evaluate item.expression second)
  if item.descending then order.swap else order

def inOrder (items : List (SortItem Term)) (first second : Handed Graph Value) : Prop :=
  (lexCompare language.compareItem items first second).isLE

instance (items : List (SortItem Term)) : DecidableRel (language.inOrder items) :=
  fun first second => inferInstanceAs (Decidable ((lexCompare language.compareItem items first second).isLE = true))

/-- `SortKeysHaveSamePrefix`, for the items of the prefix. -/
def samePrefix (items : List (SortItem Term)) (first second : Handed Graph Value) : Bool :=
  items.all fun item =>
    language.compare (language.evaluate item.expression first) (language.evaluate item.expression second) == .eq

theorem compareItem_transCmp (item : SortItem Term) : Std.TransCmp (language.compareItem item) := by
  have comparable := language.compare_transCmp
  exact transCmp_directed language.compare (language.evaluate item.expression) item.descending

theorem compareItems_transCmp (items : List (SortItem Term)) :
    Std.TransCmp (lexCompare language.compareItem items) :=
  lexCompare_transCmp language.compareItem_transCmp items

instance (items : List (SortItem Term)) : IsTrans (Handed Graph Value) (language.inOrder items) where
  trans _ _ _ first second := by
    have comparable := language.compareItems_transCmp items
    exact Std.TransCmp.isLE_trans first second

instance (items : List (SortItem Term)) : Std.Total (language.inOrder items) where
  total first second := by
    have comparable := language.compareItems_transCmp items
    have swapped : lexCompare language.compareItem items second first =
        (lexCompare language.compareItem items first second).swap := Std.OrientedCmp.eq_swap
    unfold inOrder
    rw [swapped]
    cases lexCompare language.compareItem items first second <;> simp

def Sorted (items : List (SortItem Term)) (rows : List (Handed Graph Value)) : Prop :=
  rows.Pairwise (language.inOrder items)

variable {language} {items : List (SortItem Term)} {first second : Handed Graph Value}

theorem compareItem_eq_eq {item : SortItem Term} : language.compareItem item first second = .eq ↔
      language.compare (language.evaluate item.expression first) (language.evaluate item.expression second) = .eq := by
  unfold compareItem
  cases item.descending with
  | false => rfl
  | true => exact Ordering.swap_eq_eq

theorem samePrefix_iff :
    language.samePrefix items first second ↔ lexCompare language.compareItem items first second = .eq := by
  simp [samePrefix, lexCompare_eq_eq, compareItem_eq_eq]

end GraphLanguage

end RocksGraph.Query
