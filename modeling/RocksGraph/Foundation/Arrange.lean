import Mathlib.Data.List.Perm.Basic
import Mathlib.Data.List.Sort

/-! Sorting, deduplicating and grouping lists, and how a filter passes through
each of them.

Sorting is by insertion and therefore stable. Deduplicating keeps the first
element of every class of a relation, and grouping lists the classes. -/

set_option autoImplicit false

namespace RocksGraph.Foundation

open List

variable {α β : Type}

section Sorting

variable {le : α → α → Prop} [DecidableRel le]

theorem filter_orderedInsert [IsTrans α le] (keep : α → Bool) (item : α) {sorted : List α}
    (ordered : sorted.Pairwise le) :
    (sorted.orderedInsert le item).filter keep =
      if keep item then (sorted.filter keep).orderedInsert le item else sorted.filter keep := by
  induction sorted with
  | nil => by_cases kept : keep item <;> simp [kept]
  | cons head rest ih =>
    rw [pairwise_cons] at ordered
    by_cases before : le item head
    · rw [orderedInsert_cons_of_le le rest before]
      by_cases kept : keep item
      · -- Whatever is left of the list stands behind the item, as its head does.
        have behind : ∀ other ∈ (head :: rest).filter keep, le item other := by
          intro other mem
          rcases mem_cons.mp (mem_of_mem_filter mem) with rfl | later
          · exact before
          · exact IsTrans.trans _ _ _ before (ordered.1 other later)
        rw [filter_cons_of_pos kept, if_pos kept]
        cases remaining : (head :: rest).filter keep with
        | nil => rfl
        | cons first others =>
          rw [remaining] at behind
          rw [orderedInsert_cons_of_le le others (behind first mem_cons_self)]
      · rw [filter_cons_of_neg kept, if_neg kept]
    · by_cases headKept : keep head <;> by_cases kept : keep item <;> simp [headKept, kept, ih ordered.2, before]

theorem filter_insertionSort [IsTrans α le] [Std.Total le] (keep : α → Bool) (items : List α) :
    (items.insertionSort le).filter keep = (items.filter keep).insertionSort le := by
  induction items with
  | nil => rfl
  | cons item rest ih =>
    rw [insertionSort_cons, filter_orderedInsert keep item (pairwise_insertionSort le rest), ih]
    by_cases kept : keep item <;> simp [kept]

end Sorting

section Lexicographic

theorem transCmp_on (compare : β → β → Ordering) [Std.TransCmp compare] (key : α → β) :
    Std.TransCmp fun first second => compare (key first) (key second) := by
  have oriented : Std.OrientedCmp fun first second => compare (key first) (key second) :=
    { eq_swap := Std.OrientedCmp.eq_swap }
  exact { isLE_trans := Std.TransCmp.isLE_trans }

theorem transCmp_directed (compare : β → β → Ordering) [Std.TransCmp compare] (key : α → β) (reversed : Bool) :
    Std.TransCmp fun first second =>
      if reversed then (compare (key first) (key second)).swap else compare (key first) (key second) := by
  cases reversed with
  | false => exact transCmp_on compare key
  | true =>
    have swapped : (fun first second : α => (compare (key first) (key second)).swap) =
        fun first second => compare (key second) (key first) := by
      funext first second
      exact Std.OrientedCmp.eq_swap.symm
    simp only [if_true]
    rw [swapped]
    exact transCmp_on (fun first second => compare second first) key

variable {Key : Type}

def lexCompare (compare : Key → α → α → Ordering) : List Key → α → α → Ordering
  | [], _, _ => .eq
  | key :: rest, first, second => (compare key first second).then (lexCompare compare rest first second)

variable {compare : Key → α → α → Ordering}

theorem lexCompare_transCmp (each : ∀ key, Std.TransCmp (compare key)) (keys : List Key) :
    Std.TransCmp (lexCompare compare keys) := by
  induction keys with
  | nil =>
    have oriented : Std.OrientedCmp (lexCompare compare []) := { eq_swap := rfl }
    exact { isLE_trans := fun _ _ => rfl }
  | cons key rest ih =>
    exact inferInstanceAs (Std.TransCmp (compareLex (compare key) (lexCompare compare rest)))

theorem lexCompare_eq_eq {keys : List Key} {first second : α} :
    lexCompare compare keys first second = .eq ↔ ∀ key ∈ keys, compare key first second = .eq := by
  induction keys with
  | nil => simp [lexCompare]
  | cons key rest ih => simp [lexCompare, ih]

theorem lexCompare_append (keys more : List Key) (first second : α) :
    lexCompare compare (keys ++ more) first second =
      (lexCompare compare keys first second).then (lexCompare compare more first second) := by
  induction keys with
  | nil => rfl
  | cons key rest ih => rw [cons_append, lexCompare, ih, lexCompare, Ordering.then_assoc]

end Lexicographic

variable {items : List α} {keep : α → Bool}

section Classes

theorem filter_induction {motive : List α → Prop} (nil : motive [])
    (cons : ∀ head rest, (∀ keep : α → Bool, motive (rest.filter keep)) → motive (head :: rest)) (items : List α) :
    motive items := by
  induction size : items.length using Nat.strong_induction_on generalizing items with
  | _ bound ih =>
    cases items with
    | nil => exact nil
    | cons head rest =>
      refine cons head rest fun keep => ih _ ?_ _ rfl
      have shorter := length_filter_le keep rest
      rw [length_cons] at size
      omega

variable {same : α → α → Bool}

theorem eraseDupsBy_map (change : β → α) (items : List β) :
    (items.map change).eraseDupsBy same =
      (items.eraseDupsBy fun first second => same (change first) (change second)).map change := by
  induction items using filter_induction with
  | nil => rfl
  | cons head rest ih =>
    rw [map_cons, eraseDupsBy_cons, eraseDupsBy_cons, filter_map, ih]
    rfl

theorem mem_of_mem_eraseDupsBy {item : α} (mem : item ∈ items.eraseDupsBy same) : item ∈ items := by
  induction items using filter_induction with
  | nil => exact mem
  | cons head rest ih =>
    rw [eraseDupsBy_cons, mem_cons] at mem
    rcases mem with rfl | later
    · exact mem_cons_self
    · exact mem_cons_of_mem _ (mem_of_mem_filter (ih _ later))

theorem exists_mem_eraseDupsBy (refl : ∀ item, same item item)
    (symm : ∀ first second, same first second → same second first) {item : α} (mem : item ∈ items) :
    ∃ head ∈ items.eraseDupsBy same, same head item := by
  induction items using filter_induction with
  | nil => cases mem
  | cons head rest ih =>
    rw [eraseDupsBy_cons]
    by_cases together : same item head
    · exact ⟨head, mem_cons_self, symm _ _ together⟩
    rcases mem_cons.mp mem with rfl | later
    · exact absurd (refl item) together
    · obtain ⟨found, inside, same⟩ := ih (fun other => decide (same other head = false))
        (mem_filter.mpr ⟨later, by simpa using together⟩)
      exact ⟨found, mem_cons_of_mem _ inside, same⟩

theorem pairwise_eraseDupsBy (items : List α) :
    (items.eraseDupsBy same).Pairwise fun first second => same second first = false := by
  induction items using filter_induction with
  | nil => exact .nil
  | cons head rest ih =>
    rw [eraseDupsBy_cons, pairwise_cons]
    refine ⟨fun other later => ?_, ih _⟩
    exact of_decide_eq_true (mem_filter.mp (mem_of_mem_eraseDupsBy later)).2

theorem eraseDupsBy_eq_self (apart : items.Pairwise fun first second => same second first = false) :
    items.eraseDupsBy same = items := by
  induction items with
  | nil => rfl
  | cons head rest ih =>
    rw [pairwise_cons] at apart
    rw [eraseDupsBy_cons, filter_eq_self.mpr fun other later => decide_eq_true (apart.1 other later),
      ih apart.2]

theorem filter_eraseDupsBy
    (uniform : ∀ first ∈ items, ∀ second ∈ items, same first second → keep first = keep second) :
    (items.eraseDupsBy same).filter keep = (items.filter keep).eraseDupsBy same := by
  induction items using filter_induction with
  | nil => rfl
  | cons head rest ih =>
    have others := ih (fun other => decide (same other head = false)) fun first one second two =>
      uniform first (mem_cons_of_mem _ (mem_of_mem_filter one)) second
        (mem_cons_of_mem _ (mem_of_mem_filter two))
    rw [eraseDupsBy_cons]
    by_cases kept : keep head
    · rw [filter_cons_of_pos kept, filter_cons_of_pos kept, eraseDupsBy_cons, others,
        filter_filter, filter_filter]
      simp only [Bool.and_comm]
    · rw [filter_cons_of_neg kept, filter_cons_of_neg kept, others, filter_filter]
      -- Nothing that is kept belongs to the class of the dropped head.
      congr 1
      refine filter_congr fun other later => ?_
      cases keptOther : keep other with
      | false => simp
      | true =>
        have apart : same other head = false := by
          by_contra together
          have agree := uniform other (mem_cons_of_mem _ later) head mem_cons_self
            (Bool.eq_true_of_not_eq_false together)
          exact kept (agree ▸ keptOther)
        simp [apart]

/-- The classes of a list in the order of their first elements: the first element and the whole class. -/
def groupsBy (same : α → α → Bool) (items : List α) : List (α × List α) :=
  (items.eraseDupsBy same).map fun first => (first, items.filter (same first))

theorem groupsBy_map (change : β → α) (items : List β) :
    groupsBy same (items.map change) = (groupsBy (fun first second => same (change first) (change second)) items).map
      fun group => (change group.1, group.2.map change) := by
  rw [groupsBy, eraseDupsBy_map, groupsBy, map_map, map_map]
  exact map_congr_left fun first _ => congrArg (change first, ·) filter_map

theorem filter_groupsBy
    (uniform : ∀ first ∈ items, ∀ second ∈ items, same first second → keep first = keep second) :
    (groupsBy same items).filter (fun group => keep group.1) = groupsBy same (items.filter keep) := by
  rw [groupsBy, groupsBy, filter_map, ← filter_eraseDupsBy uniform]
  refine map_congr_left fun first mem => ?_
  obtain ⟨inside, kept⟩ := mem_filter.mp mem
  rw [filter_filter]
  congr 1
  refine filter_congr fun other otherInside => ?_
  cases together : same first other with
  | false => rfl
  | true =>
    have agree := uniform first (mem_of_mem_eraseDupsBy inside) other otherInside together
    simpa using (agree ▸ kept : keep other = true)

end Classes

section Related

variable {related : α → β → Prop} {left : List α} {right : List β}

theorem exists_related_of_mem (sideBySide : List.Forall₂ related left right) {second : β} (mem : second ∈ right) :
    ∃ first ∈ left, related first second := by
  induction sideBySide with
  | nil => cases mem
  | cons here _ ih =>
    rcases mem_cons.mp mem with rfl | later
    · exact ⟨_, mem_cons_self, here⟩
    · obtain ⟨first, inside, holds⟩ := ih later
      exact ⟨first, mem_cons_of_mem _ inside, holds⟩

end Related

theorem filter_perm_cons_filter_set {position : Nat} {old new : α}
    (found : items[position]? = some old) (kept : keep old = true) (dropped : keep new = false) :
    (items.filter keep).Perm (old :: (items.set position new).filter keep) := by
  induction items generalizing position with
  | nil => simp at found
  | cons head rest ih =>
    cases position with
    | zero =>
      obtain rfl : head = old := by simpa using found
      simp [kept, dropped]
    | succ position =>
      have later := ih (by simpa using found)
      rw [set_cons_succ]
      by_cases first : keep head = true
      · rw [filter_cons_of_pos first, filter_cons_of_pos first]
        exact (later.cons head).trans (.swap old head _)
      · rw [filter_cons_of_neg first, filter_cons_of_neg first]
        exact later

end RocksGraph.Foundation
