import Mathlib.Data.List.Sort
import Mathlib.Data.Option.Basic

/-! Ordered key-value tables, the content of one column family.

A table lists its entries in key order, as an iterator over it does. Two tables
with the same lookups are equal, so a table is the finite map it stores. -/

set_option autoImplicit false

namespace RocksGraph.Foundation

open List Option

/-- A finite map whose entries are listed in increasing key order. -/
@[ext] structure Table (Key Value : Type) [LinearOrder Key] where
  entries : List (Key × Value)
  sorted : entries.Pairwise fun first second => first.1 < second.1

variable {Key Value : Type} [LinearOrder Key]

namespace Table

def empty : Table Key Value := ⟨[], .nil⟩

def find (key : Key) : List (Key × Value) → Option Value
  | [] => none
  | (other, value) :: rest => if key = other then some value else find key rest

variable (table : Table Key Value)

def get (key : Key) : Option Value :=
  find key table.entries

def contains (key : Key) : Bool :=
  (table.get key).isSome

def insertEntry (key : Key) (value : Value) : List (Key × Value) → List (Key × Value)
  | [] => [(key, value)]
  | (other, old) :: rest =>
    if key < other then (key, value) :: (other, old) :: rest
    else if key = other then (key, value) :: rest
    else (other, old) :: insertEntry key value rest

variable {key : Key} {value : Value} {entries : List (Key × Value)}

theorem mem_insertEntry {entry : Key × Value} (mem : entry ∈ insertEntry key value entries) :
    entry = (key, value) ∨ entry ∈ entries := by
  induction entries with
  | nil => exact .inl (mem_singleton.mp mem)
  | cons head rest ih =>
    unfold insertEntry at mem
    split at mem
    · exact mem_cons.mp mem
    split at mem
    · exact (mem_cons.mp mem).imp_right (mem_cons_of_mem _)
    rcases mem_cons.mp mem with rfl | mem
    · exact .inr mem_cons_self
    · exact (ih mem).imp_right (mem_cons_of_mem _)

theorem insertEntry_sorted (sorted : entries.Pairwise fun first second => first.1 < second.1) :
    (insertEntry key value entries).Pairwise fun first second => first.1 < second.1 := by
  induction entries with
  | nil => exact pairwise_singleton _ _
  | cons head rest ih =>
    obtain ⟨below, tail⟩ := pairwise_cons.mp sorted
    unfold insertEntry
    split
    next less =>
      refine pairwise_cons.mpr ⟨fun entry mem => ?_, sorted⟩
      rcases mem_cons.mp mem with rfl | mem
      · exact less
      · exact lt_trans less (below entry mem)
    · split
      next same =>
        exact pairwise_cons.mpr ⟨same ▸ below, tail⟩
      next notLess differs =>
        refine pairwise_cons.mpr ⟨fun entry mem => ?_, ih tail⟩
        rcases mem_insertEntry mem with rfl | mem
        · exact lt_of_le_of_ne (not_lt.mp notLess) (Ne.symm differs)
        · exact below entry mem

theorem find_insertEntry (key : Key) (value : Value) (entries : List (Key × Value)) (wanted : Key) :
    find wanted (insertEntry key value entries) =
      if wanted = key then some value else find wanted entries := by
  induction entries with
  | nil => rfl
  | cons head rest ih =>
    obtain ⟨other, old⟩ := head
    unfold insertEntry
    split
    · rfl
    split
    next equal =>
      subst equal
      by_cases same : wanted = key <;> simp [find, same]
    next differs =>
      by_cases found : wanted = other
      · subst found
        simp [find, Ne.symm differs]
      · simp [find, found, ih]

def put (key : Key) (value : Value) : Table Key Value :=
  ⟨insertEntry key value table.entries, insertEntry_sorted table.sorted⟩

def filter (table : Table Key Value) (keep : Key → Value → Bool) : Table Key Value :=
  ⟨table.entries.filter fun entry => keep entry.1 entry.2, table.sorted.filter _⟩

def erase (key : Key) : Table Key Value :=
  table.filter fun other _ => other != key

def assign (key : Key) : Option Value → Table Key Value
  | some value => table.put key value
  | none => table.erase key

def overlay (table other : Table Key Value) : Table Key Value :=
  other.entries.foldl (fun table entry => table.put entry.1 entry.2) table

@[simp] theorem get_empty (key : Key) : (empty : Table Key Value).get key = none := rfl

@[simp] theorem get_put (key : Key) (value : Value) (wanted : Key) :
    (table.put key value).get wanted = if wanted = key then some value else table.get wanted :=
  find_insertEntry key value table.entries wanted

variable {holds : Key → Value → Prop}

theorem get_put_iff {table : Table Key Value}
    (known : ∀ wanted found, table.get wanted = some found ↔ holds wanted found)
    (only : ∀ found, holds key found → found = value) (wanted : Key) (found : Value) :
    (table.put key value).get wanted = some found ↔ holds wanted found ∨ wanted = key ∧ found = value := by
  rw [get_put]
  split
  next same =>
    subst same
    rw [some.injEq]
    constructor
    · exact fun isValue => .inr ⟨rfl, isValue.symm⟩
    · rintro (held | ⟨-, isValue⟩)
      · exact (only found held).symm
      · exact isValue.symm
  next differs =>
    rw [known]
    exact ⟨.inl, fun either => either.resolve_right fun new => differs new.1⟩

theorem forall_get_put {table : Table Key Value} (own : holds key value)
    (others : ∀ wanted found, table.get wanted = some found → holds wanted found) (wanted : Key) (found : Value)
    (known : (table.put key value).get wanted = some found) : holds wanted found := by
  rw [get_put] at known
  split at known
  next same =>
    cases known
    exact same ▸ own
  · exact others wanted found known

theorem find_eq_some_iff (sorted : entries.Pairwise fun first second => first.1 < second.1) :
    find key entries = some value ↔ (key, value) ∈ entries := by
  induction entries with
  | nil => simp [find]
  | cons head rest ih =>
    obtain ⟨other, old⟩ := head
    obtain ⟨below, tail⟩ := pairwise_cons.mp sorted
    by_cases same : key = other
    · subst same
      have absent : (key, value) ∉ rest := fun mem => lt_irrefl key (below _ mem)
      simp [find, absent, eq_comm]
    · simp [find, same, ih tail]

theorem get_eq_some_iff : table.get key = some value ↔ (key, value) ∈ table.entries :=
  find_eq_some_iff table.sorted

@[simp] theorem get_filter (keep : Key → Value → Bool) (key : Key) :
    (table.filter keep).get key = (table.get key).filter (keep key) := by
  ext value
  rw [get_eq_some_iff, filter_eq_some_iff, get_eq_some_iff]
  exact mem_filter

theorem get_eq_none_iff : table.get key = none ↔ key ∉ table.entries.map Prod.fst := by
  rw [eq_none_iff_forall_ne_some]
  simp [get_eq_some_iff]

theorem get_filter_key (keep : Key → Bool) (key : Key) :
    (table.filter fun key _ => keep key).get key = if keep key then table.get key else none := by
  rw [get_filter]
  by_cases kept : keep key <;> cases table.get key <;> simp [kept]

@[simp] theorem get_erase (key wanted : Key) :
    (table.erase key).get wanted = if wanted = key then none else table.get wanted := by
  rw [erase, get_filter_key _ (· != key)]
  by_cases same : wanted = key <;> simp

theorem get_erase_eq_some {table : Table Key Value} {key wanted : Key} {value : Value} :
    (table.erase key).get wanted = some value ↔ wanted ≠ key ∧ table.get wanted = some value := by
  by_cases same : wanted = key <;> simp

theorem get_foldl_put (sorted : entries.Pairwise fun first second => first.1 < second.1)
    (table : Table Key Value) (wanted : Key) :
    (entries.foldl (fun table entry => table.put entry.1 entry.2) table).get wanted =
      (find wanted entries).or (table.get wanted) := by
  induction entries generalizing table with
  | nil => rfl
  | cons head rest ih =>
    obtain ⟨key, value⟩ := head
    obtain ⟨below, tail⟩ := pairwise_cons.mp sorted
    rw [foldl_cons, ih tail]
    by_cases same : wanted = key
    · subst same
      have absent : find wanted rest = none := by
        by_contra found
        obtain ⟨other, found⟩ := ne_none_iff_exists'.mp found
        exact lt_irrefl wanted (below _ ((find_eq_some_iff tail).mp found))
      simp [find, absent]
    · simp [find, same]

@[simp] theorem get_overlay (table other : Table Key Value) (wanted : Key) :
    (table.overlay other).get wanted = (other.get wanted).or (table.get wanted) :=
  get_foldl_put other.sorted table wanted

@[simp] theorem get_assign (key : Key) (value : Option Value) (wanted : Key) :
    (table.assign key value).get wanted = if wanted = key then value else table.get wanted := by
  cases value with
  | some value => exact get_put table key value wanted
  | none => exact get_erase table key wanted

theorem contains_iff (key : Key) : table.contains key = true ↔ ∃ value, table.get key = some value :=
  isSome_iff_exists

instance : Std.Irrefl fun first second : Key × Value => first.1 < second.1 :=
  ⟨fun entry => lt_irrefl entry.1⟩

instance : Std.Antisymm fun first second : Key × Value => first.1 < second.1 :=
  ⟨fun _ _ less more => absurd (lt_trans less more) (lt_irrefl _)⟩

theorem ext_get {first second : Table Key Value} (same : ∀ key, first.get key = second.get key) :
    first = second := by
  have members : ∀ entry, entry ∈ first.entries ↔ entry ∈ second.entries := by
    rintro ⟨key, value⟩
    rw [← get_eq_some_iff, ← get_eq_some_iff, same]
  exact Table.ext (first.sorted.eq_of_mem_iff second.sorted members)

end Table

end RocksGraph.Foundation
