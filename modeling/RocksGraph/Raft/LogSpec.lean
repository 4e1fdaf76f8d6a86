import RocksGraph.Raft.Log

/-! What the operations of the log do to the sequence of its entries.

The suffix of a log is the list of its entries after the boundary, stored or
not. Every operation is described by what it does to the suffix and to the
positions, so that nothing after this module looks at the split between the
storage and the unstable tail. -/

set_option autoImplicit false

namespace RocksGraph.Eraft

open List Option Unstable

/-- Entries numbered one after the other from `start`. -/
def Consecutive (start : Nat) (entries : List Entry) : Prop :=
  ∀ (k : Nat) (entry : Entry), entries[k]? = some entry → entry.index = start + k

variable {entry : Entry} {rest : List Entry}

namespace Consecutive

variable {start : Nat} {entries others : List Entry}

theorem nil : Consecutive start [] := by
  intro k entry found
  cases found

theorem head (consecutive : Consecutive start (entry :: rest)) :
    entry.index = start := consecutive 0 entry rfl

theorem tail (consecutive : Consecutive start (entry :: rest)) : Consecutive (start + 1) rest := by
  intro k found isFound
  have := consecutive (k + 1) found isFound
  omega

theorem append (left : Consecutive start entries)
    (right : Consecutive (start + entries.length) others) :
    Consecutive start (entries ++ others) := by
  intro k entry found
  by_cases inLeft : k < entries.length
  · rw [getElem?_append_left inLeft] at found
    exact left k entry found
  · rw [getElem?_append_right (by omega)] at found
    have := right _ entry found
    omega

section

variable (consecutive : Consecutive start entries)
include consecutive

theorem take (n : Nat) : Consecutive start (entries.take n) := by
  intro k entry found
  rw [getElem?_take] at found
  split at found
  · exact consecutive k entry found
  · cases found

theorem drop (n : Nat) : Consecutive (start + n) (entries.drop n) := by
  intro k entry found
  rw [getElem?_drop] at found
  have := consecutive _ entry found
  omega

theorem initial (isInitial : others <+: entries) : Consecutive start others := by
  obtain ⟨rest, rfl⟩ := isInitial
  simpa using consecutive.take others.length

end

end Consecutive

variable {start : Nat} {entries : List Entry}

theorem consecutive_cons :
    Consecutive start (entry :: rest) ↔ entry.index = start ∧ Consecutive (start + 1) rest := by
  refine ⟨fun consecutive => ⟨consecutive.head, consecutive.tail⟩, fun ⟨first, others⟩ k found isFound => ?_⟩
  cases k with
  | zero =>
    obtain rfl := some.inj isFound
    exact first
  | succ k =>
    have := others k found isFound
    omega

instance decidableConsecutive : (start : Nat) → (entries : List Entry) → Decidable (Consecutive start entries)
  | _, [] => isTrue .nil
  | start, entry :: rest =>
    have := decidableConsecutive (start + 1) rest
    decidable_of_iff (entry.index = start ∧ Consecutive (start + 1) rest) consecutive_cons.symm

section

variable (consecutive : Consecutive start entries)
include consecutive

theorem Consecutive.getLast_index {last : Entry} (isLast : entries.getLast? = some last) :
    last.index + 1 = start + entries.length := by
  rw [getLast?_eq_getElem?] at isLast
  have := consecutive _ last isLast
  have nonempty : 0 < entries.length := by
    cases entries with
    | nil => cases isLast
    | cons => simp
  omega

theorem Consecutive.bounds (mem : entry ∈ entries) :
    start ≤ entry.index ∧ entry.index < start + entries.length := by
  obtain ⟨k, isEntry⟩ := mem_iff_getElem?.mp mem
  have position := consecutive k entry isEntry
  have inside := (List.getElem?_eq_some_iff.mp isEntry).1
  omega

theorem Consecutive.increasing :
    entries.Pairwise fun earlier later => earlier.index < later.index := by
  induction entries generalizing start with
  | nil => exact .nil
  | cons entry rest ih =>
    refine .cons (fun later mem => ?_) (ih consecutive.tail)
    have := (consecutive.tail.bounds mem).1
    rw [consecutive.head]
    omega

end

namespace RaftLog

def suffix (log : RaftLog) : List Entry :=
  log.storage.entries.take (log.unstable.offset - log.storage.firstIndex) ++ log.unstable.entries

def boundary (log : RaftLog) : Nat := log.storage.firstEntryIndex

/-- How the unstable tail continues the storage. Entries below the position in
progress are stored already, and once all are, the storage has no others. -/
structure Shaped (log : RaftLog) : Prop where
  low : log.storage.firstIndex ≤ log.unstable.offset
  high : log.unstable.offset ≤ log.storage.lastIndex + 1
  closed : log.unstable.offsetInProgress = log.unstable.offset + log.unstable.entries.length →
    log.unstable.offsetInProgress = log.storage.lastIndex + 1
  begun : log.unstable.offset ≤ log.unstable.offsetInProgress
  pending : log.unstable.offsetInProgress ≤ log.unstable.offset + log.unstable.entries.length
  stored : log.unstable.entries.take (log.unstable.offsetInProgress - log.unstable.offset) <+:
    log.storage.entries.drop (log.unstable.offset - log.storage.firstIndex)
  storedIndexes : Consecutive log.storage.firstIndex log.storage.entries
  unstableIndexes : Consecutive log.unstable.offset log.unstable.entries

structure Ok (log : RaftLog) : Prop extends Shaped log where
  kept : log.boundary ≤ log.applied
  settled : log.applied < log.unstable.offset
  applying_ge : log.applied ≤ log.applying
  committed_ge : log.applying ≤ log.committed
  committed_le : log.committed ≤ log.lastIndex

variable {log next : RaftLog}

theorem Shaped.congr (shaped : log.Shaped) (storage : next.storage = log.storage)
    (unstable : next.unstable = log.unstable) : next.Shaped := by
  obtain ⟨low, high, closed, begun, pending, stored, storedIndexes, unstableIndexes⟩ := shaped
  constructor <;> simp only [storage, unstable] <;> assumption

theorem Shaped.closed_nil (shaped : log.Shaped) (empty : log.unstable.entries = []) :
    log.unstable.offset = log.storage.lastIndex + 1 ∧
      log.unstable.offsetInProgress = log.unstable.offset := by
  have begun := shaped.begun
  have pending := shaped.pending
  have closed := shaped.closed
  rw [empty, length_nil] at pending closed
  omega

theorem Shaped.stored_length (shaped : log.Shaped) :
    (log.storage.entries.take (log.unstable.offset - log.storage.firstIndex)).length =
      log.unstable.offset - log.storage.firstIndex := by
  have high := shaped.high
  simp only [length_take, LogStore.lastIndex, LogStore.firstIndex] at high ⊢
  omega

theorem suffix_length : log.suffix.length =
    (log.storage.entries.take (log.unstable.offset - log.storage.firstIndex)).length +
      log.unstable.entries.length := length_append

theorem Shaped.stored_upTo (shaped : log.Shaped) {position : Nat} (above : log.unstable.offset ≤ position)
    (begun : position ≤ log.unstable.offsetInProgress) :
    log.storage.entries.take (position - log.storage.firstIndex) =
      log.storage.entries.take (log.unstable.offset - log.storage.firstIndex) ++
        log.unstable.entries.take (position - log.unstable.offset) := by
  have low := shaped.low
  have pending := shaped.pending
  have inside := (take_prefix_take_left (show position - log.unstable.offset ≤
    log.unstable.offsetInProgress - log.unstable.offset by omega)).trans shaped.stored
  rw [prefix_iff_eq_take, length_take, Nat.min_eq_left (by omega)] at inside
  rw [show position - log.storage.firstIndex = (log.unstable.offset - log.storage.firstIndex) +
    (position - log.unstable.offset) by omega, take_add, ← inside]

theorem Shaped.lastIndex_eq (shaped : log.Shaped) :
    log.lastIndex = log.boundary + log.suffix.length := by
  have low := shaped.low
  have length := shaped.stored_length
  unfold lastIndex maybeLastIndex suffix boundary
  rw [length_append, length]
  cases unstable : log.unstable.entries with
  | nil =>
    have closed := (shaped.closed_nil unstable).1
    simp only [isEmpty_nil, if_true, getD_none, length_nil, LogStore.firstIndex] at low ⊢
    omega
  | cons first rest =>
    simp only [isEmpty_cons, Bool.false_eq_true, if_false, getD_some, LogStore.firstIndex] at low ⊢
    omega

theorem Shaped.consecutive (shaped : log.Shaped) : Consecutive (log.boundary + 1) log.suffix := by
  have low := shaped.low
  have length := shaped.stored_length
  refine (shaped.storedIndexes.take _).append ?_
  rw [length, show log.storage.firstIndex + (log.unstable.offset - log.storage.firstIndex) =
    log.unstable.offset by omega]
  exact shaped.unstableIndexes

variable {hi index lo maxSize : Nat} {sizes : Sizes}

theorem Shaped.suffix_getElem? (shaped : log.Shaped) (above : log.boundary < index) :
    log.suffix[index - (log.boundary + 1)]? =
      if index < log.unstable.offset then log.storage.entries[index - log.storage.firstIndex]?
      else log.unstable.entries[index - log.unstable.offset]? := by
  have low := shaped.low
  have length := shaped.stored_length
  unfold suffix boundary at *
  simp only [LogStore.firstIndex] at *
  split
  · rw [getElem?_append_left (by omega), getElem?_take, if_pos (by omega)]
  rw [getElem?_append_right (by omega)]
  congr 1
  omega

def suffixTerm (log : RaftLog) (index : Nat) : Except LogError Nat :=
  if index < log.boundary then .error .compacted
  else if index = log.boundary then .ok log.storage.boundaryTerm
  else match log.suffix[index - (log.boundary + 1)]? with
    | some entry => .ok entry.term
    | none => .error .unavailable

theorem first_eq (log : RaftLog) : log.storage.firstIndex = log.boundary + 1 := rfl

theorem term_stored (stored : index < log.unstable.offset) (inLog : index ≤ log.lastIndex) :
    log.term index = log.storage.term index := by
  unfold term maybeTerm
  simp only [if_pos stored, if_neg (Nat.not_lt.mpr inLog)]
  split
  next compacted =>
    unfold LogStore.term
    rw [if_pos (by simp only [firstIndex, LogStore.firstIndex] at compacted; omega)]
  · rfl

section

variable (shaped : log.Shaped)
include shaped

theorem Shaped.term_eq (index : Nat) : log.term index = log.suffixTerm index := by
  have low := shaped.low
  have last := shaped.lastIndex_eq
  have first := log.first_eq
  by_cases above : log.boundary < index
  · have lookup := shaped.suffix_getElem? above
    have unfolded : log.suffixTerm index = match log.suffix[index - (log.boundary + 1)]? with
        | some entry => .ok entry.term
        | none => .error .unavailable := by
      unfold suffixTerm
      rw [if_neg (by omega), if_neg (by omega)]
    rw [unfolded]
    by_cases inLog : index ≤ log.lastIndex
    · by_cases stored : index < log.unstable.offset
      · rw [term_stored stored inLog, lookup, if_pos stored]
        have behind : ¬ index < log.storage.firstEntryIndex ∧ index ≠ log.storage.firstEntryIndex := by
          unfold boundary at above
          omega
        refine (if_neg behind.1).trans ((if_neg behind.2).trans ?_)
        cases log.storage.entries[index - log.storage.firstIndex]? <;> rfl
      · have found : log.suffix[index - (log.boundary + 1)]? =
            some (log.suffix.get ⟨index - (log.boundary + 1), by omega⟩) := by
          rw [getElem?_eq_getElem (by omega)]
          rfl
        rw [lookup, if_neg stored] at found
        unfold term maybeTerm
        simp [if_neg stored, found, lookup]
    · have none : log.suffix[index - (log.boundary + 1)]? = none := by
        rw [List.getElem?_eq_none_iff]
        omega
      have noTerm : log.unstable.maybeTerm index = Option.none := by
        unfold maybeTerm
        split
        · rfl
        rename_i notStored
        rw [lookup, if_neg notStored] at none
        rw [none, map_none]
      unfold term
      rw [noTerm, none]
      have after : ¬ index + 1 < log.firstIndex := by
        have : log.firstIndex = log.boundary + 1 := rfl
        omega
      simp only [if_neg after, if_pos (Nat.lt_of_not_le inLog)]
  · rw [term_stored (by omega) (by omega)]
    have same : log.boundary = log.storage.firstEntryIndex := rfl
    unfold LogStore.term suffixTerm
    rw [same]
    by_cases compacted : index < log.storage.firstEntryIndex
    · rw [if_pos compacted, if_pos compacted]
    · have equal : index = log.storage.firstEntryIndex := by omega
      rw [if_neg compacted, if_neg compacted, if_pos equal, if_pos equal]

/-! ## Appending -/

/-- The log that keeps the entries before `start` and continues with others. -/
structure Appended (log : RaftLog) (start : Nat) (entries : List Entry) (next : RaftLog) : Prop where
  frame : next = { log with unstable := next.unstable }
  offset : next.unstable.offset = min log.unstable.offset start
  progress : next.unstable.offsetInProgress = min log.unstable.offsetInProgress start
  suffix : next.suffix = log.suffix.take (start - (log.boundary + 1)) ++ entries
  shaped : next.Shaped

variable {start : Nat} {entries : List Entry}

theorem Shaped.suffix_take_stored (before : start ≤ log.unstable.offset) :
    log.suffix.take (start - (log.boundary + 1)) =
      log.storage.entries.take (start - log.storage.firstIndex) := by
  have length := shaped.stored_length
  unfold RaftLog.suffix
  have first := log.first_eq
  rw [take_append_of_le_length (by omega), take_take, first]
  congr 1
  omega

theorem Shaped.suffix_take_unstable (after : log.unstable.offset ≤ start) :
    log.suffix.take (start - (log.boundary + 1)) =
      log.storage.entries.take (log.unstable.offset - log.storage.firstIndex) ++
        log.unstable.entries.take (start - log.unstable.offset) := by
  have length := shaped.stored_length
  have low := shaped.low
  have first := log.first_eq
  unfold RaftLog.suffix
  rw [take_append, take_of_length_le (by omega)]
  congr 2
  omega

theorem Shaped.truncateAndAppend {unstable : Unstable}
    (nonempty : entries ≠ []) (consecutive : Consecutive start entries)
    (above : log.boundary < start) (done : log.unstable.truncateAndAppend entries = some unstable) :
    Appended log start entries { log with unstable } := by
  have low := shaped.low
  have high := shaped.high
  have begun := shaped.begun
  have pending := shaped.pending
  have first := log.first_eq
  obtain ⟨head, rest, rfl⟩ := exists_cons_of_ne_nil nonempty
  have headIndex := consecutive.head
  unfold Unstable.truncateAndAppend at done
  simp only [headIndex] at done
  split at done
  · -- the entries continue the tail
    rename_i continued
    obtain rfl := Option.some.inj done
    refine ⟨rfl, by simp only; omega, by simp only; omega, ?_, ?_⟩
    · have whole : log.unstable.entries.take (start - log.unstable.offset) = log.unstable.entries :=
        take_of_length_le (by omega)
      rw [shaped.suffix_take_unstable (by omega), whole]
      simp [suffix]
    · refine ⟨low, high, ?_, begun, ?_, ?_, shaped.storedIndexes, ?_⟩
      · simp only [length_append, length_cons]
        omega
      · simp only [length_append]
        omega
      · simpa only [take_append_of_le_length (show
          log.unstable.offsetInProgress - log.unstable.offset ≤ log.unstable.entries.length by omega)]
          using shaped.stored
      · exact shaped.unstableIndexes.append (continued ▸ consecutive)
  · split at done
    · -- the entries replace the tail
      rename_i replaced
      obtain rfl := Option.some.inj done
      refine ⟨rfl, by simp only; omega, by simp only; omega, ?_, ?_⟩
      · rw [shaped.suffix_take_stored replaced]
        rfl
      · refine ⟨by simp only; omega, by simp only; omega, ?_, Nat.le_refl _, ?_, ?_, shaped.storedIndexes,
          consecutive⟩
        · simp only [length_cons]
          omega
        · simp only
          omega
        · simp
    · -- the entries replace the end of the tail
      obtain ⟨keep, sliced, done⟩ := bind_eq_some_iff.mp done
      obtain rfl := Option.some.inj done
      unfold Unstable.slice at sliced
      rw [if_neg (by omega)] at sliced
      split at sliced
      · cases sliced
      obtain rfl := Option.some.inj sliced
      simp only [Nat.sub_self, drop_zero]
      have keepLength : (log.unstable.entries.take (start - log.unstable.offset)).length =
          start - log.unstable.offset := by
        rw [length_take]
        omega
      refine ⟨rfl, by simp only; omega, rfl, ?_, ?_⟩
      · rw [shaped.suffix_take_unstable (by omega)]
        simp [suffix]
      · refine ⟨low, high, ?_, by simp only; omega, ?_, ?_, shaped.storedIndexes, ?_⟩
        · simp only [length_append, length_cons]
          omega
        · simp only [length_append]
          omega
        · simp only
          rw [take_append_of_le_length (by omega), take_take]
          refine List.IsPrefix.trans ?_ shaped.stored
          exact take_prefix_take_left (by omega)
        · refine (shaped.unstableIndexes.take _).append ?_
          rw [keepLength, show log.unstable.offset + (start - log.unstable.offset) = start by omega]
          exact consecutive

theorem Shaped.append (nonempty : entries ≠ [])
    (consecutive : Consecutive start entries) (above : log.boundary < start)
    (done : log.append entries = some next) :
    log.committed < start ∧ Appended log start entries next := by
  obtain ⟨head, rest, rfl⟩ := exists_cons_of_ne_nil nonempty
  unfold RaftLog.append at done
  simp only [consecutive.head] at done
  split at done
  · cases done
  · obtain ⟨unstable, truncated, rfl⟩ := map_eq_some_iff.mp done
    exact ⟨by omega, shaped.truncateAndAppend nonempty consecutive above truncated⟩

end

theorem commitTo_eq {log : RaftLog} {tocommit : Nat} (done : log.commitTo tocommit = some next) :
    next = { log with committed := max log.committed tocommit } ∧
      (log.committed < tocommit → tocommit ≤ log.lastIndex) := by
  unfold commitTo at done
  split at done
  next behind =>
    split at done
    · cases done
    obtain rfl := Option.some.inj done
    rw [Nat.max_eq_right (Nat.le_of_lt behind)]
    exact ⟨rfl, fun _ => by omega⟩
  next ahead =>
    obtain rfl := Option.some.inj done
    rw [Nat.max_eq_left (by omega)]
    exact ⟨rfl, fun behind => absurd behind ahead⟩

theorem Shaped.of_matchTerm (shaped : log.Shaped) {term : Nat}
    (matched : log.matchTerm index term = true) :
    log.boundary ≤ index ∧ index ≤ log.lastIndex ∧ log.term index = .ok term := by
  have last := shaped.lastIndex_eq
  unfold matchTerm at matched
  split at matched
  next found isFound =>
    have same : found = term := by simpa using matched
    subst same
    have unfolded := isFound
    rw [shaped.term_eq, suffixTerm] at unfolded
    split at unfolded
    · cases unfolded
    split at unfolded
    · exact ⟨by omega, by omega, isFound⟩
    split at unfolded
    next entry inside =>
      have := (List.getElem?_eq_some_iff.mp inside).1
      exact ⟨by omega, by omega, isFound⟩
    · cases unfolded
  · cases matched

theorem Shaped.term_inside (shaped : log.Shaped) {term : Nat} (found : log.term index = .ok term) :
    log.boundary ≤ index ∧ index ≤ log.lastIndex := by
  have matched : log.matchTerm index term = true := by
    unfold matchTerm
    rw [found]
    simp
  exact ⟨(shaped.of_matchTerm matched).1, (shaped.of_matchTerm matched).2.1⟩

theorem Shaped.term_ok (shaped : log.Shaped) (above : log.boundary ≤ index)
    (inLog : index ≤ log.lastIndex) : ∃ term, log.term index = .ok term := by
  have last := shaped.lastIndex_eq
  rw [shaped.term_eq, suffixTerm, if_neg (by omega)]
  by_cases atBoundary : index = log.boundary
  · exact ⟨_, if_pos atBoundary⟩
  · rw [if_neg atBoundary, getElem?_eq_getElem (by omega)]
    exact ⟨_, rfl⟩

theorem withinLimit_initial (sizes : Sizes) (maxSize : Nat) (entries : List Entry) (size : Nat) :
    withinLimit sizes maxSize size entries <+: entries := by
  induction entries generalizing size with
  | nil => exact nil_prefix
  | cons entry rest ih =>
    unfold withinLimit
    split
    · exact nil_prefix
    · exact cons_prefix_cons.mpr ⟨rfl, ih _⟩

theorem limitSize_initial (sizes : Sizes) (maxSize : Nat) (entries : List Entry) :
    limitSize sizes maxSize entries <+: entries := by
  cases entries with
  | nil => exact nil_prefix
  | cons entry rest => exact cons_prefix_cons.mpr ⟨rfl, withinLimit_initial ..⟩

theorem limitSize_ne_nil (sizes : Sizes) (maxSize : Nat) (nonempty : entries ≠ []) :
    limitSize sizes maxSize entries ≠ [] := by
  cases entries with
  | nil => exact absurd rfl nonempty
  | cons => exact cons_ne_nil _ _

def range (log : RaftLog) (lo hi : Nat) : List Entry :=
  (log.suffix.drop (lo - (log.boundary + 1))).take (hi - lo)

theorem Shaped.range_stored (shaped : log.Shaped) (above : log.boundary < lo)
    (below : hi ≤ log.unstable.offset) :
    log.range lo hi = (log.storage.entries.drop (lo - log.storage.firstIndex)).take (hi - lo) := by
  have length := shaped.stored_length
  have first := log.first_eq
  apply ext_getElem?
  intro k
  simp only [range, RaftLog.suffix, getElem?_take, getElem?_drop, getElem?_append, length]
  by_cases inside : k < hi - lo
  · rw [if_pos inside, if_pos inside, if_pos (by omega), if_pos (by omega), first]
  · rw [if_neg inside, if_neg inside]

theorem Shaped.range_unstable (shaped : log.Shaped) (above : log.unstable.offset ≤ lo) :
    log.range lo hi = (log.unstable.entries.drop (lo - log.unstable.offset)).take (hi - lo) := by
  have length := shaped.stored_length
  have low := shaped.low
  have first := log.first_eq
  apply ext_getElem?
  intro k
  simp only [range, RaftLog.suffix, getElem?_take, getElem?_drop, getElem?_append, length]
  rw [if_neg (show ¬ lo - (log.boundary + 1) + k < log.unstable.offset - log.storage.firstIndex by omega),
    show lo - (log.boundary + 1) + k - (log.unstable.offset - log.storage.firstIndex) =
      lo - log.unstable.offset + k by omega]

theorem range_append {mid : Nat} (above : log.boundary < lo) (first : lo ≤ mid) (second : mid ≤ hi) :
    log.range lo hi = log.range lo mid ++ log.range mid hi := by
  unfold range
  rw [show hi - lo = (mid - lo) + (hi - mid) by omega, take_add, drop_drop,
    show lo - (log.boundary + 1) + (mid - lo) = mid - (log.boundary + 1) by omega]

theorem Shaped.range_length (shaped : log.Shaped) (above : log.boundary < lo) (ordered : lo ≤ hi)
    (within : hi ≤ log.lastIndex + 1) : (log.range lo hi).length = hi - lo := by
  have last := shaped.lastIndex_eq
  unfold range
  rw [length_take, length_drop]
  omega

theorem Shaped.range_consecutive (shaped : log.Shaped) (above : log.boundary < lo) :
    Consecutive lo (log.range lo hi) := by
  have consecutive := (shaped.consecutive.drop (lo - (log.boundary + 1))).take (hi - lo)
  rwa [show log.boundary + 1 + (lo - (log.boundary + 1)) = lo by omega] at consecutive

/-- The log once the entries of a ready are written; `hardState` may be new. -/
def written (log : RaftLog) (hardState : HardState) : RaftLog :=
  { log with
    storage := { log.storage.append log.nextUnstableEnts with hardState }
    unstable := log.unstable.acceptInProgress }

theorem Shaped.append_stored (shaped : log.Shaped) :
    log.storage.append log.nextUnstableEnts = { log.storage with entries := log.suffix } := by
  have low := shaped.low
  have begun := shaped.begun
  have pending := shaped.pending
  -- the storage up to the position in progress is the log up to there
  have upTo := shaped.stored_upTo begun (Nat.le_refl _)
  have whole : log.suffix =
      log.storage.entries.take (log.unstable.offsetInProgress - log.storage.firstIndex) ++
        log.nextUnstableEnts := by
    rw [upTo, append_assoc]
    unfold RaftLog.suffix RaftLog.nextUnstableEnts nextEntries
    rw [take_append_drop]
  cases rest : log.nextUnstableEnts with
  | nil =>
    have all : log.unstable.offsetInProgress = log.unstable.offset + log.unstable.entries.length := by
      unfold RaftLog.nextUnstableEnts nextEntries at rest
      rw [drop_eq_nil_iff] at rest
      omega
    have closed := shaped.closed all
    unfold LogStore.append
    rw [whole, rest, append_nil, take_of_length_le]
    simp only [LogStore.lastIndex, LogStore.firstIndex] at closed ⊢
    omega
  | cons head tail =>
    have headIndex : head.index = log.unstable.offsetInProgress := by
      have indexes := shaped.unstableIndexes.drop (log.unstable.offsetInProgress - log.unstable.offset)
      rw [show log.unstable.entries.drop (log.unstable.offsetInProgress - log.unstable.offset) =
        head :: tail from rest] at indexes
      rw [indexes.head]
      omega
    unfold LogStore.append
    simp only [headIndex, length_cons]
    rw [if_neg (by omega), Nat.max_eq_left (by omega),
      show log.storage.firstIndex - log.unstable.offsetInProgress = 0 by omega, drop_zero, whole, rest]

theorem Shaped.acceptInProgress (shaped : log.Shaped) :
    log.unstable.acceptInProgress = { log.unstable with offsetInProgress := log.lastIndex + 1 } := by
  have low := shaped.low
  have last := shaped.lastIndex_eq
  have length := shaped.stored_length
  have total := log.suffix_length
  have first := log.first_eq
  unfold Unstable.acceptInProgress
  split
  next entry isLast =>
    rw [shaped.unstableIndexes.getLast_index isLast]
    congr 1
    omega
  next empty =>
    rw [getLast?_eq_none_iff] at empty
    rw [empty, length_nil] at total
    have : log.unstable.offsetInProgress = log.lastIndex + 1 := by
      rw [(shaped.closed_nil empty).2]
      omega
    rw [← this]

structure Written (log next : RaftLog) : Prop where
  storage : next.storage.entries = log.suffix
  boundary : next.boundary = log.boundary
  boundaryTerm : next.storage.boundaryTerm = log.storage.boundaryTerm
  offset : next.unstable.offset = log.unstable.offset
  entries : next.unstable.entries = log.unstable.entries
  progress : next.unstable.offsetInProgress = log.lastIndex + 1
  suffix : next.suffix = log.suffix
  lastIndex : next.lastIndex = log.lastIndex
  stored : next.storage.lastIndex = log.lastIndex
  shaped : next.Shaped

theorem Shaped.written (shaped : log.Shaped) (hardState : HardState) :
    Written log (log.written hardState) := by
  have low := shaped.low
  have last := shaped.lastIndex_eq
  have length := shaped.stored_length
  have total := log.suffix_length
  have first := log.first_eq
  have same : log.written hardState = { log with
      storage := { log.storage with entries := log.suffix, hardState }
      unstable := { log.unstable with offsetInProgress := log.lastIndex + 1 } } := by
    unfold RaftLog.written
    rw [shaped.append_stored, shaped.acceptInProgress]
  have cut : log.suffix.take (log.unstable.offset - log.storage.firstIndex) =
      log.storage.entries.take (log.unstable.offset - log.storage.firstIndex) := by
    rw [RaftLog.suffix, take_append_of_le_length (by omega), take_take, Nat.min_self]
  have rest : log.suffix.drop (log.unstable.offset - log.storage.firstIndex) = log.unstable.entries := by
    rw [RaftLog.suffix, drop_append_of_le_length (by omega),
      drop_of_length_le (by omega), nil_append]
  have suffix : (log.written hardState).suffix = log.suffix := by
    rw [same]
    change log.suffix.take (log.unstable.offset - log.storage.firstIndex) ++ log.unstable.entries = log.suffix
    rw [cut]
    rfl
  have isShaped : (log.written hardState).Shaped := by
    rw [same]
    refine ⟨low, ?_, ?_, ?_, ?_, ?_, shaped.consecutive, shaped.unstableIndexes⟩
    · simp only [LogStore.lastIndex, LogStore.firstIndex] at *
      omega
    · intro _
      simp only [LogStore.lastIndex, boundary] at *
      omega
    · simp only
      omega
    · simp only
      omega
    · rw [show log.suffix.drop (log.unstable.offset -
        ({ log.storage with entries := log.suffix, hardState } : LogStore).firstIndex) =
          log.unstable.entries from rest]
      exact List.take_prefix _ _
  have sameBoundary : (log.written hardState).boundary = log.boundary := by rw [same]; rfl
  refine ⟨by rw [same], sameBoundary, by rw [same], by rw [same], by rw [same], by rw [same], suffix, ?_, ?_,
    isShaped⟩
  · rw [isShaped.lastIndex_eq, suffix, sameBoundary, last]
  · rw [same, last]
    rfl

end RaftLog

end RocksGraph.Eraft
