import RocksGraph.Foundation.Arrange
import Mathlib.Data.List.Induction

/-! Sorting run by run, and with a heap of bounded size. -/

set_option autoImplicit false

namespace RocksGraph.Foundation

open List

variable {α : Type}

section Sorting

variable {le : α → α → Prop} [DecidableRel le]

theorem orderedInsert_append {item : α} {left right : List α} (before : ∀ other ∈ right, le item other) :
    (left ++ right).orderedInsert le item = left.orderedInsert le item ++ right := by
  induction left with
  | nil =>
    cases right with
    | nil => rfl
    | cons head rest => simp [before head mem_cons_self]
  | cons head rest ih =>
    rw [cons_append, orderedInsert, orderedInsert]
    split
    · rfl
    · rw [ih, cons_append]

theorem insertionSort_append {left right : List α} (before : ∀ first ∈ left, ∀ second ∈ right, le first second) :
    (left ++ right).insertionSort le = left.insertionSort le ++ right.insertionSort le := by
  induction left with
  | nil => rfl
  | cons head rest ih =>
    obtain ⟨here, later⟩ := forall_mem_cons.mp before
    rw [cons_append, insertionSort_cons, ih later]
    apply orderedInsert_append
    intro other mem
    exact here other ((mem_insertionSort le).mp mem)

theorem orderedInsert_comm [IsTrans α le] [Std.Total le] (earlier later : α) (sorted : List α) :
    (sorted.orderedInsert (fun first second => ¬ le second first) later).orderedInsert le earlier =
      (sorted.orderedInsert le earlier).orderedInsert (fun first second => ¬ le second first) later := by
  induction sorted with
  | nil => by_cases before : le earlier later <;> simp
  | cons head rest ih =>
    by_cases first : le earlier head <;> by_cases second : le head later
    · have before : le earlier later := IsTrans.trans _ _ _ first second
      simp [first, second, before]
    · by_cases before : le earlier later <;> simp [first, second]
    · simp [first, second, ih]
    · -- `later` stands strictly before `head` and `head` before `earlier`.
      have after : ¬ le earlier later := by
        intro before
        have up : le later head := (Std.Total.total later head).resolve_right second
        exact first (IsTrans.trans _ _ _ before up)
      simp [first, second, after]

theorem insertionSort_concat [IsTrans α le] [Std.Total le] (items : List α) (item : α) :
    (items ++ [item]).insertionSort le =
      (items.insertionSort le).orderedInsert (fun first second => ¬ le second first) item := by
  induction items with
  | nil => rfl
  | cons head rest ih => rw [cons_append, insertionSort_cons, ih, orderedInsert_comm, insertionSort_cons]

theorem take_orderedInsert_take (limit : Nat) (item : α) (sorted : List α) :
    ((sorted.take limit).orderedInsert le item).take limit = (sorted.orderedInsert le item).take limit := by
  induction sorted generalizing limit with
  | nil => simp
  | cons head rest ih =>
    cases limit with
    | zero => simp
    | succ limit =>
      by_cases before : le item head
      · cases limit <;> simp [before, take_take]
      · simp [before, ih]

end Sorting

variable (le : α → α → Prop) [DecidableRel le] (same : α → α → Bool)

/-- From the last element to the first one, which is a heap with a front that no element comes after. -/
def makeHeap (entries : List α) : List α := (entries.insertionSort le).reverse

def retainInHeap (limit : Nat) (entries : List α) (entry : α) : List α :=
  if entries.length < limit then entries ++ [entry]
  else match makeHeap le entries with
    | [] => []
    | front :: rest => if le front entry then front :: rest else makeHeap le (entry :: rest)

def continues (run : List α) (entry : α) : Bool := run.head?.all fun front => same front entry

/-- Sort run by run, with a part of the first run read. -/
def sortRuns (run : List α) : List α → List α
  | [] => run.insertionSort le
  | entry :: rest =>
    if continues same run entry then sortRuns (run ++ [entry]) rest else run.insertionSort le ++ sortRuns [entry] rest

/-- The same, when only `remaining` entries are wanted. -/
def topRuns (remaining : Nat) (run : List α) : List α → List α
  | [] => run.insertionSort le
  | entry :: rest =>
    if continues same run entry then topRuns remaining (retainInHeap le remaining run entry) rest
    else run.insertionSort le ++ if remaining = run.length then [] else topRuns (remaining - run.length) [entry] rest

variable {le same} {entry : α} {entries seen run rest : List α} {limit : Nat}

/-- `entries` are the first `limit` of those that were read. -/
def Kept (le : α → α → Prop) [DecidableRel le] (limit : Nat) (seen entries : List α) : Prop :=
  entries.insertionSort le = (seen.insertionSort le).take limit

theorem Kept.length (kept : Kept le limit seen entries) : entries.length = min limit seen.length := by
  simpa using congrArg List.length kept

theorem take_insertionSort_concat (length : entries.length = limit) (behind : ∀ other ∈ entries, le other entry) :
    ((entries ++ [entry]).insertionSort le).take limit = entries.insertionSort le := by
  rw [insertionSort_append (by simpa using behind), take_left' (by rw [length_insertionSort, length])]

section Runs

variable {leading : α → α → Ordering} [Std.TransCmp leading]

/-- The first order does not tell the entries of a run apart. -/
def Level (leading : α → α → Ordering) (run : List α) : Prop :=
  run.Pairwise fun first second => leading first second = .eq

variable (agree : ∀ first second, same first second ↔ leading first second = .eq)

include agree

theorem Level.continues_iff (level : Level leading run) {other : α} (inside : other ∈ run) :
    continues same run entry ↔ leading other entry = .eq := by
  cases run with
  | nil => cases inside
  | cons front run =>
    rw [continues, head?_cons, Option.all_some, agree]
    rcases mem_cons.mp inside with rfl | behind
    · rfl
    · rw [Std.TransCmp.congr_left ((pairwise_cons.mp level).1 other behind)]

theorem Level.concat (level : Level leading run) (joined : continues same run entry) :
    Level leading (run ++ [entry]) := by
  refine pairwise_append.mpr ⟨level, pairwise_singleton _ _, fun other inside => ?_⟩
  rw [forall_mem_singleton]
  exact (level.continues_iff agree inside).mp joined

theorem sortRuns_eq (finer : ∀ first second, leading first second = .lt → le first second)
    (sorted : (run ++ rest).Pairwise fun first second => (leading first second).isLE) (level : Level leading run) :
    sortRuns le same run rest = (run ++ rest).insertionSort le := by
  induction rest generalizing run with
  | nil => rw [append_nil, sortRuns]
  | cons entry rest ih =>
    rw [sortRuns]
    split
    case isTrue joined =>
      rw [ih (by rwa [append_assoc]) (level.concat agree joined), append_assoc]
      rfl
    case isFalse boundary =>
      obtain ⟨_, later, across⟩ := pairwise_append.mp sorted
      have next : sortRuns le same [entry] rest = (entry :: rest).insertionSort le := ih later (pairwise_singleton _ _)
      rw [next, insertionSort_append]
      intro first one second two
      have reached : leading first entry = .lt :=
        (Ordering.isLE_iff_eq_lt_or_eq_eq.mp (across first one entry mem_cons_self)).resolve_right
          (mt (level.continues_iff agree one).mpr boundary)
      rcases mem_cons.mp two with rfl | behind
      · exact finer _ _ reached
      · exact finer _ _ (Std.TransCmp.lt_of_lt_of_isLE reached ((pairwise_cons.mp later).1 second behind))

theorem Kept.continues_eq (kept : Kept le limit seen run) (positive : 0 < limit) (level : Level leading seen) :
    continues same run entry = continues same seen entry := by
  cases run with
  | nil =>
    have length := kept.length
    rw [length_nil, eq_comm, Nat.min_eq_zero_iff] at length
    rw [length_eq_zero_iff.mp (length.resolve_left positive.ne')]
  | cons front run =>
    have inside : front ∈ (seen.insertionSort le).take limit := kept ▸ (mem_insertionSort le).mpr mem_cons_self
    rw [Bool.eq_iff_iff, level.continues_iff agree ((mem_insertionSort le).mp (mem_of_mem_take inside)), ← agree]
    rfl

end Runs

variable [IsTrans α le] [Std.Total le] [Std.Antisymm le]

theorem insertionSort_eq_of_perm (permuted : entries.Perm seen) : entries.insertionSort le = seen.insertionSort le :=
  (((perm_insertionSort le entries).trans permuted).trans (perm_insertionSort le seen).symm).eq_of_pairwise'
    (pairwise_insertionSort le entries) (pairwise_insertionSort le seen)

theorem insertionSort_retainInHeap (positive : 0 < limit) (bounded : entries.length ≤ limit) (entry : α) :
    (retainInHeap le limit entries entry).insertionSort le = ((entries ++ [entry]).insertionSort le).take limit := by
  unfold retainInHeap
  split
  case isTrue room =>
    rw [take_of_length_le]
    rw [length_insertionSort, length_append]
    exact room
  case isFalse full =>
    have heap : (makeHeap le entries).Perm entries := (reverse_perm _).trans (perm_insertionSort le entries)
    have ordered : (makeHeap le entries).Pairwise fun first second => le second first :=
      pairwise_reverse.mpr (pairwise_insertionSort le entries)
    have count : (makeHeap le entries).length = limit := heap.length_eq.trans (by omega)
    rw [← insertionSort_eq_of_perm (heap.append_right [entry])]
    generalize makeHeap le entries = arranged at ordered count ⊢
    cases arranged with
    | nil => rw [← count] at positive; cases positive
    | cons front others =>
      have last := (pairwise_cons.mp ordered).1
      dsimp only
      split
      case isTrue after =>
        refine (take_insertionSort_concat count (forall_mem_cons.mpr ⟨after, fun other inside => ?_⟩)).symm
        exact IsTrans.trans _ _ _ (last other inside) after
      case isFalse before =>
        -- The front leaves the heap, and all that remains stands before it.
        have swapped : (front :: others ++ [entry]).Perm (entry :: others ++ [front]) :=
          (perm_append_singleton _ _).trans ((Perm.swap _ _ _).trans (perm_append_singleton _ _).symm)
        rw [insertionSort_eq_of_perm swapped]
        refine .trans ?_ (take_insertionSort_concat (by exact count) (forall_mem_cons.mpr ⟨?_, last⟩)).symm
        · exact insertionSort_eq_of_perm ((reverse_perm _).trans (perm_insertionSort le _))
        · exact (Std.Total.total entry front).resolve_right before

theorem Kept.retain (kept : Kept le limit seen entries) (positive : 0 < limit) (entry : α) :
    Kept le limit (seen ++ [entry]) (retainInHeap le limit entries entry) := by
  have bounded : entries.length ≤ limit := kept.length.trans_le (min_le_left _ _)
  rw [Kept, insertionSort_retainInHeap positive bounded, insertionSort_concat, insertionSort_concat, kept,
    take_orderedInsert_take]

theorem topRuns_eq {leading : α → α → Ordering} [Std.TransCmp leading]
    (agree : ∀ first second, same first second ↔ leading first second = .eq) (kept : Kept le limit seen run)
    (positive : 0 < limit) (level : Level leading seen) :
    topRuns le same limit run rest = (sortRuns le same seen rest).take limit := by
  induction rest generalizing seen run limit with
  | nil => exact kept
  | cons entry rest ih =>
    rw [topRuns, sortRuns, kept.continues_eq agree positive level]
    split
    case isTrue joined => exact ih (kept.retain positive entry) positive (level.concat agree joined)
    case isFalse =>
      rw [take_append, length_insertionSort, kept.length]
      congr 1
      split
      case isTrue enough => rw [Nat.sub_eq_zero_of_le (by omega), take_zero]
      case isFalse more =>
        have short : min limit seen.length = seen.length := by omega
        have single : Kept le (limit - seen.length) [entry] [entry] := (take_of_length_le (by simp; omega)).symm
        rw [short]
        exact ih single (by omega) (pairwise_singleton _ _)

end RocksGraph.Foundation
