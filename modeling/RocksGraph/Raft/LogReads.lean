import RocksGraph.Raft.LogSpec

/-! What the log returns when it is read, exactly.

The storage and the unstable tail are limited one after the other, and together
they give what limiting the whole range gives. -/

set_option autoImplicit false

namespace RocksGraph.Eraft

open List Option

/-- The longest initial part whose size is within the limit; at least one entry. -/
structure LongestWithin (sizes : Sizes) (maxSize : Nat) (entries result : List Entry) : Prop where
  initial : result <+: entries
  nonempty : entries ≠ [] → result ≠ []
  within : entsSize sizes result ≤ maxSize ∨ result.length = 1
  longest : ∀ other, other <+: entries → result.length < other.length → maxSize < entsSize sizes other

variable {sizes : Sizes} {maxSize size : Nat} {entries : List Entry}

theorem entsSize_cons (entry : Entry) (rest : List Entry) :
    entsSize sizes (entry :: rest) = sizes.entry entry + entsSize sizes rest := rfl

theorem withinLimit_longest (sizes : Sizes) (maxSize : Nat) (entries : List Entry) (size : Nat) :
    (withinLimit sizes maxSize size entries = [] ∨
        size + entsSize sizes (withinLimit sizes maxSize size entries) ≤ maxSize) ∧
      ∀ other, other <+: entries → (withinLimit sizes maxSize size entries).length < other.length →
        maxSize < size + entsSize sizes other := by
  induction entries generalizing size with
  | nil =>
    refine ⟨.inl rfl, fun other initial longer => ?_⟩
    rw [prefix_nil.mp initial] at longer
    exact absurd longer (Nat.not_lt_zero _)
  | cons entry rest ih =>
    unfold withinLimit
    split
    · refine ⟨.inl rfl, fun other initial longer => ?_⟩
      cases other with
      | nil => exact absurd longer (Nat.lt_irrefl _)
      | cons first others =>
        obtain ⟨rfl, -⟩ := cons_prefix_cons.mp initial
        rw [entsSize_cons]
        omega
    · obtain ⟨fit, longest⟩ := ih (size + sizes.entry entry)
      refine ⟨.inr ?_, fun other initial longer => ?_⟩
      · rw [entsSize_cons]
        rcases fit with empty | fit
        · rw [empty]
          simp only [entsSize, map_nil, sum_nil]
          omega
        · omega
      · cases other with
        | nil => exact absurd longer (Nat.not_lt_zero _)
        | cons first others =>
          obtain ⟨rfl, others_initial⟩ := cons_prefix_cons.mp initial
          have := longest others others_initial (by simpa using longer)
          rw [entsSize_cons]
          omega

theorem limitSize_longest (sizes : Sizes) (maxSize : Nat) (entries : List Entry) :
    LongestWithin sizes maxSize entries (limitSize sizes maxSize entries) := by
  refine ⟨RaftLog.limitSize_initial .., RaftLog.limitSize_ne_nil sizes maxSize, ?_, ?_⟩
  · cases entries with
    | nil => exact .inl (Nat.zero_le _)
    | cons entry rest =>
      rcases (withinLimit_longest sizes maxSize rest (sizes.entry entry)).1 with empty | fit
      · exact .inr (by rw [limitSize, empty, length_singleton])
      · exact .inl (by rwa [limitSize])
  · intro other initial longer
    cases entries with
    | nil =>
      rw [prefix_nil.mp initial] at longer
      exact absurd longer (Nat.lt_irrefl _)
    | cons entry rest =>
      cases other with
      | nil => exact absurd longer (Nat.not_lt_zero _)
      | cons first others =>
        obtain ⟨rfl, others_initial⟩ := cons_prefix_cons.mp initial
        exact (withinLimit_longest sizes maxSize rest (sizes.entry first)).2 others others_initial
          (by simpa [limitSize] using longer)

theorem withinLimit_append (left right : List Entry) :
    withinLimit sizes maxSize size (left ++ right) =
      if withinLimit sizes maxSize size left = left then
        left ++ withinLimit sizes maxSize (size + entsSize sizes left) right
      else withinLimit sizes maxSize size left := by
  induction left generalizing size with
  | nil => simp [withinLimit, entsSize]
  | cons entry rest ih =>
    rw [cons_append, withinLimit, withinLimit]
    by_cases exceeds : size + sizes.entry entry > maxSize
    · rw [if_pos exceeds, if_pos exceeds, if_neg (by simp)]
    rw [if_neg exceeds, if_neg exceeds, ih]
    by_cases whole : withinLimit sizes maxSize (size + sizes.entry entry) rest = rest
    · rw [if_pos whole, if_pos (by rw [whole]), entsSize_cons, cons_append, add_assoc]
    · rw [if_neg whole, if_neg (by simpa using whole)]

theorem limitSize_append {left right : List Entry} (nonempty : left ≠ []) :
    limitSize sizes maxSize (left ++ right) =
      if limitSize sizes maxSize left = left then
        left ++ withinLimit sizes maxSize (entsSize sizes left) right
      else limitSize sizes maxSize left := by
  obtain ⟨entry, rest, rfl⟩ := exists_cons_of_ne_nil nonempty
  rw [cons_append, limitSize, limitSize, withinLimit_append]
  by_cases whole : withinLimit sizes maxSize (sizes.entry entry) rest = rest
  · rw [if_pos whole, if_pos (by rw [whole]), entsSize_cons, cons_append]
  · rw [if_neg whole, if_neg (by simpa using whole)]

theorem withinLimit_sub (spent : Nat) (within : spent ≤ maxSize) (entries : List Entry) (size : Nat) :
    withinLimit sizes (maxSize - spent) size entries =
      withinLimit sizes maxSize (spent + size) entries := by
  induction entries generalizing size with
  | nil => rfl
  | cons entry rest ih =>
    unfold withinLimit
    by_cases exceeds : size + sizes.entry entry > maxSize - spent
    · rw [if_pos exceeds, if_pos (by omega)]
    · rw [if_neg exceeds, if_neg (by omega), ih, add_assoc]

theorem withinLimit_full (positive : ∀ entry ∈ entries, 0 < sizes.entry entry) (full : maxSize ≤ size) :
    withinLimit sizes maxSize size entries = [] := by
  cases entries with
  | nil => rfl
  | cons entry rest =>
    have := positive entry mem_cons_self
    rw [withinLimit, if_pos (by omega)]

theorem limitSize_rest {spent : Nat} (within : spent < maxSize) (nonempty : entries ≠ []) :
    (if (limitSize sizes (maxSize - spent) entries).length = 1 ∧
        spent + entsSize sizes (limitSize sizes (maxSize - spent) entries) > maxSize then []
      else limitSize sizes (maxSize - spent) entries) = withinLimit sizes maxSize spent entries := by
  obtain ⟨entry, rest, rfl⟩ := exists_cons_of_ne_nil nonempty
  rw [limitSize, withinLimit_sub spent (Nat.le_of_lt within), withinLimit]
  by_cases exceeds : spent + sizes.entry entry > maxSize
  · have noMore : withinLimit sizes maxSize (spent + sizes.entry entry) rest = [] := by
      cases rest with
      | nil => rfl
      | cons second others => rw [withinLimit, if_pos (by omega)]
    rw [noMore, if_pos exceeds]
    simpa [entsSize] using exceeds
  · rw [if_neg exceeds, if_neg]
    rintro ⟨single, exceeds⟩
    rw [length_cons, Nat.add_eq_right, length_eq_zero_iff] at single
    rw [single] at exceeds
    simp only [entsSize, map_cons, map_nil, sum_cons, sum_nil] at exceeds
    omega

namespace RaftLog

variable {log : RaftLog}

theorem storage_slice_ok {store : LogStore} {lo hi : Nat} (above : store.firstEntryIndex < lo)
    (proper : lo < hi) (within : hi ≤ store.lastIndex + 1) :
    store.slice sizes lo hi maxSize = some (.ok (limitSize sizes maxSize
      ((store.entries.drop (lo - store.firstIndex)).take (hi - lo)))) := by
  have length : ((store.entries.drop (lo - store.firstIndex)).take (hi - lo)).length = hi - lo := by
    simp only [length_take, length_drop, LogStore.lastIndex, LogStore.firstIndex] at *
    omega
  have filled : store.entries.isEmpty = false := by
    cases entries : store.entries with
    | nil =>
      rw [entries, drop_nil, take_nil] at length
      simp only [length_nil] at length
      omega
    | cons => rfl
  have nonempty : limitSize sizes maxSize
      ((store.entries.drop (lo - store.firstIndex)).take (hi - lo)) ≠ [] := by
    exact limitSize_ne_nil sizes maxSize (ne_nil_of_length_pos (by omega))
  unfold LogStore.slice
  rw [if_neg (by omega), if_neg (by omega), filled]
  simp

theorem unstable_slice_ok {unstable : Unstable} {lo hi : Nat} (ordered : lo ≤ hi)
    (above : unstable.offset ≤ lo) (within : hi ≤ unstable.offset + unstable.entries.length) :
    unstable.slice lo hi = some ((unstable.entries.drop (lo - unstable.offset)).take (hi - lo)) := by
  unfold Unstable.slice
  rw [if_neg (by omega), if_neg (by omega)]

section

variable (shaped : log.Shaped)
include shaped

theorem Shaped.lastIndex_unstable :
    log.lastIndex + 1 = log.unstable.offset + log.unstable.entries.length := by
  have low := shaped.low
  have last := shaped.lastIndex_eq
  have length := shaped.stored_length
  have total : log.suffix.length = _ := length_append
  have first := log.first_eq
  omega

variable {lo hi index : Nat}

theorem Shaped.index_pos {entry : Entry} (mem : entry ∈ log.range lo hi) : 0 < entry.index := by
  have inside : entry ∈ log.suffix := mem_of_mem_drop (mem_of_mem_take mem)
  obtain ⟨position, found⟩ := getElem?_of_mem inside
  have numbered := shaped.consecutive position entry found
  omega

/-- Where an entry may have no size, the storage alone can fill the limit. -/
theorem Shaped.slice_ok (above : log.boundary < lo) (ordered : lo ≤ hi)
    (within : hi ≤ log.lastIndex + 1) : ∃ result, log.slice sizes lo hi maxSize = some (.ok result) ∧
      result <+: log.range lo hi ∧
      ((∀ entry, 0 < entry.index → 0 < sizes.entry entry) → result = limitSize sizes maxSize (log.range lo hi)) := by
  have initial := limitSize_initial sizes maxSize (log.range lo hi)
  generalize sliced : log.slice sizes lo hi maxSize = found
  generalize whole : limitSize sizes maxSize (log.range lo hi) = limited at initial ⊢
  have high := shaped.high
  have last := shaped.lastIndex_unstable
  have first : log.firstIndex = log.boundary + 1 := rfl
  have bounds : log.mustCheckOutOfBounds lo hi = some (.ok ()) := by
    unfold mustCheckOutOfBounds checkOutOfBounds
    rw [if_neg (by omega), if_neg (by omega), if_neg (by omega)]
  unfold RaftLog.slice at sliced
  rw [bounds] at sliced
  simp only [bind_eq_bind, bind_some, Option.pure_def, sliceWithin] at sliced
  by_cases empty : lo = hi
  · subst empty
    rw [range, Nat.sub_self, take_zero, limitSize] at whole
    rw [if_pos rfl, whole] at sliced
    exact ⟨limited, sliced.symm, initial, fun _ => rfl⟩
  rw [if_neg empty] at sliced
  by_cases unstable : log.unstable.offset ≤ lo
  · rw [if_pos unstable, unstable_slice_ok ordered unstable (by omega), bind_some,
      ← shaped.range_unstable unstable, whole] at sliced
    exact ⟨limited, sliced.symm, initial, fun _ => rfl⟩
  rw [if_neg unstable, storage_slice_ok above (by omega) (by omega)] at sliced
  simp only [bind_some] at sliced
  rw [← shaped.range_stored above (Nat.min_le_right hi log.unstable.offset)] at sliced
  by_cases stored : hi ≤ log.unstable.offset
  · rw [if_pos stored, Nat.min_eq_left stored, whole] at sliced
    exact ⟨limited, sliced.symm, initial, fun _ => rfl⟩
  -- the range reaches into the unstable tail
  have cut : min hi log.unstable.offset = log.unstable.offset := by omega
  rw [if_neg stored, cut] at sliced
  have parts := range_append above (by omega) (show log.unstable.offset ≤ hi by omega)
  have leftLength := shaped.range_length above (show lo ≤ log.unstable.offset by omega) (by omega)
  have leftFilled : log.range lo log.unstable.offset ≠ [] := ne_nil_of_length_pos (by omega)
  rw [parts, limitSize_append leftFilled] at whole
  by_cases cutShort : (limitSize sizes maxSize (log.range lo log.unstable.offset)).length <
      log.unstable.offset - lo
  · rw [if_neg] at whole
    · rw [if_pos cutShort, whole] at sliced
      exact ⟨limited, sliced.symm, initial, fun _ => rfl⟩
    intro all
    rw [all, leftLength] at cutShort
    exact absurd cutShort (Nat.lt_irrefl _)
  have all : limitSize sizes maxSize (log.range lo log.unstable.offset) =
      log.range lo log.unstable.offset := (limitSize_initial sizes maxSize _).eq_of_length_le (by omega)
  rw [if_neg cutShort, all] at sliced
  rw [all, if_pos rfl] at whole
  by_cases full : entsSize sizes (log.range lo log.unstable.offset) ≥ maxSize
  · rw [if_pos full] at sliced
    refine ⟨_, sliced.symm, parts ▸ prefix_append _ _, fun positive => ?_⟩
    rw [← whole, withinLimit_full (fun entry mem => positive entry (shaped.index_pos mem)) full, append_nil]
  rw [if_neg full, unstable_slice_ok (by omega) (Nat.le_refl _) (by omega), bind_some,
    ← shaped.range_unstable (Nat.le_refl _)] at sliced
  have rightLength := shaped.range_length (show log.boundary < log.unstable.offset by
    omega) (show log.unstable.offset ≤ hi by omega) within
  have rightFilled : log.range log.unstable.offset hi ≠ [] := ne_nil_of_length_pos (by omega)
  refine ⟨limited, ?_, initial, fun _ => rfl⟩
  rw [← sliced, ← whole, ← limitSize_rest (Nat.lt_of_not_le full) rightFilled]
  split
  · rw [append_nil]
  · rfl

theorem Shaped.slice_eq (positive : ∀ entry, 0 < entry.index → 0 < sizes.entry entry)
    (above : log.boundary < lo) (ordered : lo ≤ hi) (within : hi ≤ log.lastIndex + 1) :
    log.slice sizes lo hi maxSize = some (.ok (limitSize sizes maxSize (log.range lo hi))) := by
  obtain ⟨result, sliced, -, limited⟩ := shaped.slice_ok above ordered within
  rw [sliced, limited positive]

theorem Shaped.slice (done : log.slice sizes lo hi maxSize = some (.ok entries)) :
    log.boundary < lo ∧ entries <+: log.range lo hi := by
  have first : log.firstIndex = log.boundary + 1 := rfl
  have last := shaped.lastIndex_eq
  have inside : log.boundary < lo ∧ lo ≤ hi ∧ hi ≤ log.lastIndex + 1 := by
    obtain ⟨bounds, checked, done⟩ := bind_eq_some_iff.mp done
    cases bounds with
    | error => cases done
    | ok =>
      unfold mustCheckOutOfBounds checkOutOfBounds at checked
      split at checked
      · cases checked
      split at checked
      · cases checked
      split at checked
      · cases checked
      · omega
  obtain ⟨above, ordered, within⟩ := inside
  obtain ⟨result, sliced, initial, -⟩ := shaped.slice_ok above ordered within
  rw [sliced] at done
  cases done
  exact ⟨above, initial⟩

end

end RaftLog

end RocksGraph.Eraft
