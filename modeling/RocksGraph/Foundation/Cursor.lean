import RocksGraph.Foundation.Table

/-! Reading a key-ordered list behind a cursor.

A consumer keeps the key of the last entry it took. The entries up to that key
are done and the ones after it are due, and an append above all keys adds to
what is due only. -/

set_option autoImplicit false

namespace RocksGraph.Foundation

open List

variable {Key Value : Type} [LinearOrder Key]

def Ordered (entries : List (Key × Value)) : Prop :=
  entries.Pairwise fun first second => first.1 < second.1

def upTo (cursor : Key) (entries : List (Key × Value)) : List (Key × Value) :=
  entries.filter fun entry => entry.1 ≤ cursor

def after (cursor : Key) (entries : List (Key × Value)) : List (Key × Value) :=
  entries.filter fun entry => cursor < entry.1

variable {cursor : Key} {entries : List (Key × Value)}

theorem mem_after {entry : Key × Value} :
    entry ∈ after cursor entries ↔ entry ∈ entries ∧ cursor < entry.1 := by
  simp [after]

theorem upTo_eq_self (below : ∀ entry ∈ entries, entry.1 ≤ cursor) : upTo cursor entries = entries :=
  filter_eq_self.mpr fun entry mem => decide_eq_true (below entry mem)

theorem upTo_eq_nil (above : ∀ entry ∈ entries, cursor < entry.1) : upTo cursor entries = [] :=
  filter_eq_nil_iff.mpr fun entry mem => by
    simpa using above entry mem

theorem after_eq_self (above : ∀ entry ∈ entries, cursor < entry.1) : after cursor entries = entries :=
  filter_eq_self.mpr fun entry mem => decide_eq_true (above entry mem)

theorem after_eq_nil (below : ∀ entry ∈ entries, entry.1 ≤ cursor) : after cursor entries = [] :=
  filter_eq_nil_iff.mpr fun entry mem => by
    simpa using below entry mem

theorem upTo_append (cursor : Key) (left right : List (Key × Value)) :
    upTo cursor (left ++ right) = upTo cursor left ++ upTo cursor right :=
  filter_append ..

theorem after_append (cursor : Key) (left right : List (Key × Value)) :
    after cursor (left ++ right) = after cursor left ++ after cursor right :=
  filter_append ..

theorem upTo_append_after (ordered : Ordered entries) :
    upTo cursor entries ++ after cursor entries = entries := by
  induction entries with
  | nil => rfl
  | cons head rest ih =>
    obtain ⟨below, tail⟩ := pairwise_cons.mp ordered
    by_cases taken : head.1 ≤ cursor
    · rw [upTo, after, filter_cons_of_pos (by simpa using taken),
        filter_cons_of_neg (by simpa using taken)]
      exact congrArg (head :: ·) (ih tail)
    · have above : ∀ entry ∈ head :: rest, cursor < entry.1 := by
        intro entry mem
        rcases mem_cons.mp mem with rfl | mem
        · exact not_le.mp taken
        · exact lt_trans (not_le.mp taken) (below entry mem)
      rw [upTo_eq_nil above, after_eq_self above, nil_append]

theorem advance {block rest : List (Key × Value)} {last : Key × Value} (ordered : Ordered entries)
    (due : after cursor entries = (block ++ [last]) ++ rest) :
    upTo last.1 entries = upTo cursor entries ++ (block ++ [last]) ∧ after last.1 entries = rest := by
  have whole : upTo cursor entries ++ ((block ++ [last]) ++ rest) = entries :=
    due ▸ upTo_append_after ordered
  have sorted : Ordered (upTo cursor entries ++ ((block ++ [last]) ++ rest)) := whole.symm ▸ ordered
  obtain ⟨-, sorted, across⟩ := pairwise_append.mp sorted
  obtain ⟨taken, -, later⟩ := pairwise_append.mp sorted
  have atLast : last ∈ block ++ [last] := by simp
  have done : ∀ entry ∈ upTo cursor entries ++ (block ++ [last]), entry.1 ≤ last.1 := by
    intro entry mem
    rcases mem_append.mp mem with old | new
    · exact le_of_lt (across entry old last (mem_append_left _ atLast))
    rcases mem_append.mp new with early | same
    · exact le_of_lt ((pairwise_append.mp taken).2.2 entry early last (by simp))
    · rw [mem_singleton.mp same]
  have unread : ∀ entry ∈ rest, last.1 < entry.1 := fun entry mem => later last atLast entry mem
  rw [← append_assoc] at whole
  constructor
  · rw [← whole, upTo_append, upTo_eq_self done, upTo_eq_nil unread, append_nil, whole]
  · rw [← whole, after_append, after_eq_nil done, after_eq_self unread, nil_append]

variable {table : Table Key Value}

/-- What an iterator that seeks past the cursor reads from a table that holds
the due entries and no others. -/
theorem Table.after_entries (ordered : Ordered entries)
    (stored : ∀ key value, table.get key = some value → (key, value) ∈ entries)
    (kept : ∀ key value, (key, value) ∈ entries → cursor < key → table.get key = some value) :
    after cursor table.entries = after cursor entries := by
  refine (table.sorted.filter _).eq_of_mem_iff (ordered.filter _) ?_
  rintro ⟨key, value⟩
  show (key, value) ∈ after cursor table.entries ↔ (key, value) ∈ after cursor entries
  rw [mem_after, mem_after, ← table.get_eq_some_iff]
  exact ⟨fun ⟨found, due⟩ => ⟨stored key value found, due⟩,
    fun ⟨mem, due⟩ => ⟨kept key value mem due, due⟩⟩

def Table.putAll (table : Table Key Value) (batch : List (Key × Value)) : Table Key Value :=
  batch.foldl (fun table entry => table.put entry.1 entry.2) table

theorem Table.get_putAll {batch : List (Key × Value)}
    (ordered : Ordered batch) {key : Key} {value : Value} :
    (table.putAll batch).get key = some value ↔
      (key, value) ∈ batch ∨ (∀ entry ∈ batch, entry.1 ≠ key) ∧ table.get key = some value := by
  induction batch generalizing table with
  | nil => simp [putAll]
  | cons head rest ih =>
    obtain ⟨below, tail⟩ := pairwise_cons.mp ordered
    rw [putAll, foldl_cons, ← putAll, ih tail, get_put]
    by_cases same : key = head.1
    · subst same
      have absent : ∀ entry ∈ rest, entry.1 ≠ head.1 :=
        fun entry mem => ne_of_gt (below entry mem)
      have missing : (head.1, value) ∉ rest := fun mem => absent _ mem rfl
      simp only [missing, false_or, mem_cons, or_false]
      constructor
      · rintro ⟨-, found⟩
        exact .inl (Prod.ext rfl (Option.some.inj found).symm)
      · rintro (same | ⟨differs, -⟩)
        · exact ⟨absent, congrArg some (congrArg Prod.snd same).symm⟩
        · exact absurd rfl (differs head (.inl rfl))
    · have other : (key, value) ≠ head := fun equal => same (congrArg Prod.fst equal)
      simp [same, other, Ne.symm same]

end RocksGraph.Foundation
