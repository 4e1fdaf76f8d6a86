import Mathlib.Data.Finset.Card
import Mathlib.Data.List.Sort

/-! Majorities: the value that a majority reaches, and majorities that meet. -/

set_option autoImplicit false

namespace RocksGraph.Foundation

open List

variable {α : Type}

/-- In an increasing list the value at a position is the largest bound that it and the values behind it reach. -/
theorem sub_le_countP_iff {values : List Nat} (sorted : values.Pairwise (· ≤ ·)) {position : Nat}
    (inside : position < values.length) (bound : Nat) :
    values.length - position ≤ values.countP (fun value => decide (bound ≤ value)) ↔ bound ≤ values.getD position 0 := by
  have split : values = values.take position ++ values.getD position 0 :: values.drop (position + 1) := by
    rw [getD_eq_getElem?_getD, getElem?_eq_getElem inside, Option.getD_some, getElem_cons_drop inside,
      take_append_drop]
  have behind : (values.drop (position + 1)).length = values.length - position - 1 := by
    rw [length_drop]
    omega
  rw [split] at sorted
  obtain ⟨-, sortedBack, below⟩ := pairwise_append.mp sorted
  have above := (pairwise_cons.mp sortedBack).1
  have counted := congrArg (countP fun value => decide (bound ≤ value)) split
  rw [countP_append, countP_cons] at counted
  constructor
  · intro many
    by_contra small
    -- Neither the value nor any before it reaches the bound, so those behind it are too few.
    have before : (values.take position).countP (fun value => decide (bound ≤ value)) = 0 := by
      rw [countP_eq_zero]
      intro value mem reached
      have := below value mem _ mem_cons_self
      rw [decide_eq_true_eq] at reached
      omega
    have rest : (values.drop (position + 1)).countP (fun value => decide (bound ≤ value)) ≤
        (values.drop (position + 1)).length := countP_le_length
    simp only [small, decide_false, Bool.false_eq_true, if_false] at counted
    omega
  · intro reached
    have rest : (values.drop (position + 1)).countP (fun value => decide (bound ≤ value)) =
        (values.drop (position + 1)).length := by
      rw [countP_eq_length]
      intro value mem
      exact decide_eq_true (reached.trans (above value mem))
    simp only [reached, decide_true, if_true] at counted
    omega

theorem card_filter_toFinset [DecidableEq α] {members : List α} (nodup : members.Nodup) (test : α → Bool) :
    (members.toFinset.filter fun mem => test mem = true).card = members.countP test := by
  rw [← toFinset_filter, toFinset_card_of_nodup (nodup.filter _), countP_eq_length_filter]

/-- Majorities of two sets that differ in one member at most have a member in common. -/
theorem exists_common_of_majorities [DecidableEq α] {first second : Finset α}
    (close : (first \ second).card + (second \ first).card ≤ 1) {yes also : α → Prop} [DecidablePred yes]
    [DecidablePred also] (firstMajority : first.card < 2 * (first.filter yes).card)
    (secondMajority : second.card < 2 * (second.filter also).card) : ∃ mem, yes mem ∧ also mem := by
  by_contra apart
  have disjoint : Disjoint (first.filter yes) (second.filter also) := by
    rw [Finset.disjoint_left]
    intro mem inFirst inSecond
    exact apart ⟨mem, (Finset.mem_filter.mp inFirst).2, (Finset.mem_filter.mp inSecond).2⟩
  have together : (first.filter yes).card + (second.filter also).card ≤ (first ∪ second).card := by
    rw [← Finset.card_union_of_disjoint disjoint]
    exact Finset.card_le_card (Finset.union_subset_union (Finset.filter_subset _ _) (Finset.filter_subset _ _))
  have firstUnion : (first \ second).card + second.card = (first ∪ second).card := Finset.card_sdiff_add_card first second
  have secondUnion : (second \ first).card + first.card = (first ∪ second).card := by
    rw [Finset.union_comm]
    exact Finset.card_sdiff_add_card second first
  omega

end RocksGraph.Foundation
