import RocksGraph.Foundation.Bounded
import RocksGraph.Query.SortKeys

/-! The loops of the sort operators (`physical_executor_unary.cc`).

An entry is given by its `sequence`: its row and its keys are those of the row that was pulled with this number. -/

set_option autoImplicit false

namespace RocksGraph.Query.GraphLanguage

open Foundation List

variable {Graph Term Value : Type} (language : GraphLanguage Graph Term Value) (items : List (SortItem Term))
  (rows : List (Handed Graph Value))

/-- `SortKeysComeBefore` tells whether this is `.lt`. -/
def compareEntries (left right : Fin rows.length) : Ordering :=
  (lexCompare language.compareItem items rows[left] rows[right]).then (Ord.compare left right)

/-- The right entry does not come before the left one. -/
def NotAfter (left right : Fin rows.length) : Prop := language.compareEntries items rows right left ≠ .lt

instance : DecidableRel (language.NotAfter items rows) := fun _ _ => inferInstanceAs (Decidable (_ ≠ _))

def fullSortOperator : List (Handed Graph Value) :=
  ((finRange rows.length).insertionSort (language.NotAfter items rows)).map rows.get

def retainTopOne (entries : List (Fin rows.length)) (entry : Fin rows.length) : List (Fin rows.length) :=
  match entries with
  | [] => [entry]
  | front :: rest => if language.NotAfter items rows front entry then front :: rest else entry :: rest

/-- The body of the loop of `TopNOperator::Initialize`; `heapified_` only saves a `make_heap` on a heap. -/
def retainTop (limit : Nat) (entries : List (Fin rows.length)) (entry : Fin rows.length) : List (Fin rows.length) :=
  if limit = 1 then language.retainTopOne items rows entries entry
  else retainInHeap (language.NotAfter items rows) limit entries entry

def topNOperator (count : Nat) : List (Handed Graph Value) :=
  if count = 0 then []
  else (((finRange rows.length).foldl (language.retainTop items rows count) []).insertionSort
    (language.NotAfter items rows)).map rows.get

/-- `SamePrefix` for a prefix of `leading` items. -/
def sameRun (leading : Nat) (left right : Fin rows.length) : Bool :=
  language.samePrefix (items.take leading) rows[left] rows[right]

def partialSortOperator (leading : Nat) : List (Handed Graph Value) :=
  (sortRuns (language.NotAfter items rows) (language.sameRun items rows leading) [] (finRange rows.length)).map rows.get

def partialTopNOperator (leading count : Nat) : List (Handed Graph Value) :=
  if count = 0 then []
  else (topRuns (language.NotAfter items rows) (language.sameRun items rows leading) count [] (finRange rows.length)).map
    rows.get

variable {language items rows} {left right : Fin rows.length}

instance : Std.TransCmp (language.compareEntries items rows) := by
  have comparable := language.compareItems_transCmp items
  have byRow := transCmp_on (lexCompare language.compareItem items) rows.get
  exact inferInstanceAs (Std.TransCmp (compareLex
    (fun left right => lexCompare language.compareItem items (rows.get left) (rows.get right)) Ord.compare))

theorem notAfter_iff : language.NotAfter items rows left right ↔ (language.compareEntries items rows left right).isLE := by
  have swapped : language.compareEntries items rows right left = (language.compareEntries items rows left right).swap :=
    Std.OrientedCmp.eq_swap
  rw [NotAfter, swapped]
  cases language.compareEntries items rows left right <;> decide

instance : IsTrans (Fin rows.length) (language.NotAfter items rows) where
  trans _ _ _ first second := by
    rw [notAfter_iff] at *
    exact Std.TransCmp.isLE_trans first second

instance : Std.Total (language.NotAfter items rows) where
  total first second := by
    rw [notAfter_iff, NotAfter]
    cases language.compareEntries items rows first second <;> decide

instance : Std.Antisymm (language.NotAfter items rows) where
  antisymm first second before after := by
    rw [notAfter_iff] at before after
    have level : language.compareEntries items rows first second = .eq := Std.OrientedCmp.isLE_antisymm before after
    exact compare_eq_iff_eq.mp (Ordering.then_eq_eq.mp level).2

theorem kept_foldl_retainTop {limit : Nat} (positive : 0 < limit) (read : List (Fin rows.length)) :
    Kept (language.NotAfter items rows) limit read (read.foldl (language.retainTop items rows limit) []) := by
  induction read using reverseRecOn with
  | nil => exact take_nil.symm
  | append_singleton read entry ih =>
    have step := ih.retain positive entry
    have length := ih.length
    rw [foldl_concat, retainTop]
    split
    case isTrue one =>
      subst one
      generalize read.foldl (language.retainTop items rows 1) [] = entries at length step ⊢
      rcases entries with _ | ⟨front, _ | ⟨other, rest⟩⟩
      · exact step
      · exact step
      · simp at length
        omega
    case isFalse => exact step

theorem sortOperators_eq (language : GraphLanguage Graph Term Value) (items : List (SortItem Term)) (count : Nat)
    (rows : List (Handed Graph Value)) :
    language.topNOperator items rows count = (language.fullSortOperator items rows).take count ∧
      ∀ leading, language.Sorted (items.take leading) rows →
        language.partialSortOperator items rows leading = language.fullSortOperator items rows ∧
        language.partialTopNOperator items rows leading count = (language.fullSortOperator items rows).take count := by
  refine ⟨?_, fun leading sorted => ?_⟩
  · unfold topNOperator fullSortOperator
    split
    case isTrue none => rw [none, take_zero]
    case isFalse some => rw [kept_foldl_retainTop (Nat.pos_of_ne_zero some), map_take]
  have comparable := language.compareItems_transCmp (items.take leading)
  have byRow := transCmp_on (lexCompare language.compareItem (items.take leading)) rows.get
  have agree : ∀ first second, language.sameRun items rows leading first second ↔
      lexCompare language.compareItem (items.take leading) (rows.get first) (rows.get second) = .eq :=
    fun _ _ => samePrefix_iff
  have finer : ∀ first second,
      lexCompare language.compareItem (items.take leading) (rows.get first) (rows.get second) = .lt →
        language.NotAfter items rows first second := by
    intro first second before
    rw [get_eq_getElem, get_eq_getElem] at before
    rw [notAfter_iff, compareEntries, ← take_append_drop leading items, lexCompare_append, Fin.getElem_fin,
      Fin.getElem_fin, before]
    rfl
  have ordered : ([] ++ finRange rows.length).Pairwise fun first second =>
      (lexCompare language.compareItem (items.take leading) (rows.get first) (rows.get second)).isLE := by
    rwa [Sorted, ← map_get_finRange rows, pairwise_map] at sorted
  have runs := sortRuns_eq agree finer ordered .nil
  refine ⟨congrArg (map rows.get) runs, ?_⟩
  unfold partialTopNOperator fullSortOperator
  split
  case isTrue none => rw [none, take_zero]
  case isFalse some =>
    have nothing : Kept (language.NotAfter items rows) count [] [] := take_nil.symm
    rw [topRuns_eq agree nothing (Nat.pos_of_ne_zero some) .nil, runs, map_take, nil_append]

inductive Property where
  | property (key : String)
  deriving DecidableEq

def properties : GraphLanguage (String → Int → Int) Property Int where
  null := 0
  names _ := ["n"]
  value | .property key, graph, row => graph key (row "n")
  value_congr term graph first second agree := by
    cases term
    simp [agree "n" mem_cons_self]
  aggregates _ := false
  summary _ rows := rows.length
  isTrue value := value = 1
  conjunction left right := if left = 1 ∧ right = 1 then 1 else 0
  isTrue_conjunction left right := by by_cases first : left = 1 <;> by_cases second : right = 1 <;> simp [first, second]
  same left right := left = right
  compare left right := Ord.compare left right
  compare_transCmp := inferInstance

/-- The node `n` has `x` equal to its own number. -/
def ownNumber : String → Int → Int := fun _ node => node

/-- ORDER BY n, m DESC LIMIT 2 over rows that come in the order of n. -/
theorem sortOperators_of_sorted :
    let items : List (SortItem Property) := [⟨.var "n", false⟩, ⟨.var "m", true⟩]
    let rows : List (Handed (String → Int → Int) Int) :=
      [(1, 1), (1, 2), (1, 3), (2, 1)].map fun pair => ⟨fun name => if name = "n" then pair.1 else pair.2, ownNumber⟩
    (properties.partialTopNOperator items rows 1 2).map (·.row "m") = [3, 2] ∧
      properties.partialTopNOperator items rows 1 2 = (properties.fullSortOperator items rows).take 2 :=
  ⟨by decide +kernel, ((sortOperators_eq properties _ 2 _).2 1 (by unfold Sorted; decide +kernel)).2⟩

end RocksGraph.Query.GraphLanguage
