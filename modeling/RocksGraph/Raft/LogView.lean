import RocksGraph.Raft.LogReads
import RocksGraph.Raft.SnapshotLog

/-! The log with a snapshot, read as a log without one.

A pending snapshot hides the storage: the log reads as one over a storage that
holds the snapshot and nothing else. Without a snapshot only the entries below
the unstable tail are read from the storage. In both cases the log reads as
`RaftLog` does over a storage that may differ from the one it has, and what is
known of `RaftLog` holds of it. -/

set_option autoImplicit false

variable {index : Nat}

namespace RocksGraph.Eraft.SnapshotLog

open List Option

def onto (log : SnapshotLog) (storage : LogStore) : RaftLog := { log.base with storage }

/-- The storage gives the reads of the log: it holds the snapshot, or agrees with
the storage of the log as far as that is read. -/
structure Reads (log : SnapshotLog) (storage : LogStore) : Prop where
  ofSnapshot : ∀ snapshot, log.snapshot = some snapshot →
    storage.firstEntryIndex = snapshot.index ∧ storage.boundaryTerm = snapshot.term ∧
      log.base.unstable.offset = snapshot.index + 1
  ofStorage : log.snapshot = none →
    log.base.storage.firstEntryIndex = storage.firstEntryIndex ∧
      log.base.storage.boundaryTerm = storage.boundaryTerm ∧
      log.base.storage.entries.take (log.base.unstable.offset - storage.firstIndex) =
        storage.entries.take (log.base.unstable.offset - storage.firstIndex) ∧
      log.base.unstable.offset ≤ log.base.storage.lastIndex + 1 ∧
      (log.base.unstable.entries = [] → log.base.storage.lastIndex = storage.lastIndex)

variable {log next : SnapshotLog} {storage : LogStore} {sizes : Sizes} {entries : List Entry}

theorem Reads.firstIndex_eq (reads : log.Reads storage) :
    log.firstIndex = (log.onto storage).firstIndex := by
  unfold firstIndex maybeFirstIndex RaftLog.firstIndex LogStore.firstIndex
  cases pending : log.snapshot with
  | none => simp [(reads.ofStorage pending).1, onto]
  | some snapshot => simp [(reads.ofSnapshot snapshot pending).1, onto]

theorem Reads.lastIndex_eq (reads : log.Reads storage) (shaped : (log.onto storage).Shaped) :
    log.lastIndex = (log.onto storage).lastIndex := by
  unfold lastIndex maybeLastIndex RaftLog.lastIndex Unstable.maybeLastIndex
  cases unstable : log.base.unstable.entries with
  | cons first rest => simp [onto, unstable]
  | nil =>
    cases pending : log.snapshot with
    | none => simp [onto, unstable, (reads.ofStorage pending).2.2.2.2 unstable]
    | some snapshot =>
      have closed := (shaped.closed_nil unstable).1
      have offset := (reads.ofSnapshot snapshot pending).2.2
      simp only [onto] at closed
      simp only [onto, unstable, isEmpty_nil, if_true, map_some, getD_some,
        getD_none]
      omega

theorem maybeTerm_unstable (above : log.base.unstable.offset ≤ index) :
    log.maybeTerm index = log.base.unstable.maybeTerm index := by
  unfold maybeTerm Unstable.maybeTerm maybeLastIndex
  rw [if_neg (Nat.not_lt.mpr above), if_neg (Nat.not_lt.mpr above)]
  cases unstable : log.base.unstable.entries with
  | nil =>
    cases pending : log.snapshot with
    | none => simp
    | some snapshot =>
      simp
  | cons first rest =>
    simp only [isEmpty_cons, Bool.false_eq_true, if_false]
    split
    · rw [getElem?_eq_none (by omega), map_none]
    · rfl

theorem storage_term_congr {left right : LogStore} {offset : Nat}
    (first : left.firstEntryIndex = right.firstEntryIndex) (term : left.boundaryTerm = right.boundaryTerm)
    (same : left.entries.take (offset - right.firstIndex) = right.entries.take (offset - right.firstIndex))
    (below : index < offset) : left.term index = right.term index := by
  unfold LogStore.term
  rw [first, term]
  split
  · rfl
  split
  · rfl
  have lookup := congrArg (fun entries : List Entry => entries[index - right.firstIndex]?) same
  have inside : index - right.firstIndex < offset - right.firstIndex := by
    simp only [LogStore.firstIndex]
    omega
  simp only [getElem?_take, if_pos inside] at lookup
  rw [show left.firstIndex = right.firstIndex by simp only [LogStore.firstIndex, first], lookup]

theorem Reads.term_eq (reads : log.Reads storage) (shaped : (log.onto storage).Shaped) (index : Nat) :
    log.term index = (log.onto storage).term index := by
  have first := reads.firstIndex_eq
  have last := reads.lastIndex_eq shaped
  unfold term RaftLog.term
  rw [first, last]
  by_cases above : log.base.unstable.offset ≤ index
  · have sameTail : (log.onto storage).unstable = log.base.unstable := rfl
    rw [maybeTerm_unstable above, sameTail]
    cases found : log.base.unstable.maybeTerm index with
    | some term => rfl
    | none =>
      -- neither storage is asked: the index is beyond the log
      have beyond : (log.onto storage).lastIndex < index := by
        have := shaped.lastIndex_unstable
        unfold Unstable.maybeTerm at found
        rw [if_neg (Nat.not_lt.mpr above), map_eq_none_iff, List.getElem?_eq_none_iff] at found
        simp only [onto] at this ⊢
        omega
      simp only [if_pos beyond]
  · have below : index < log.base.unstable.offset := by omega
    have noTerm : (log.onto storage).unstable.maybeTerm index = none := by
      exact if_pos below
    rw [noTerm]
    unfold maybeTerm
    rw [if_pos below]
    cases pending : log.snapshot with
    | none =>
      obtain ⟨firstEntry, boundaryTerm, same, -, -⟩ := reads.ofStorage pending
      rw [storage_term_congr firstEntry boundaryTerm same below]
      rfl
    | some snapshot =>
      obtain ⟨firstEntry, boundaryTerm, offset⟩ := reads.ofSnapshot snapshot pending
      have reaches : (log.onto storage).boundary ≤ (log.onto storage).lastIndex := by
        rw [shaped.lastIndex_eq]
        omega
      have boundary : (log.onto storage).boundary = snapshot.index := firstEntry
      simp only
      by_cases isSnapshot : snapshot.index = index
      · have stored : (log.onto storage).storage.term index = .ok snapshot.term := by
          unfold LogStore.term
          rw [if_neg (by simp only [onto]; omega), if_pos (by simp only [onto]; omega)]
          exact congrArg _ boundaryTerm
        have kept : ¬ index + 1 < (log.onto storage).firstIndex := by
          simp only [RaftLog.firstIndex, LogStore.firstIndex, onto]
          omega
        have inLog : ¬ index > (log.onto storage).lastIndex := by omega
        simp only [if_pos isSnapshot, if_neg kept, if_neg inLog, stored]
      · rw [if_neg isSnapshot]
        have compacted : index + 1 < (log.onto storage).firstIndex := by
          simp only [RaftLog.firstIndex, LogStore.firstIndex, onto]
          omega
        simp only [if_pos compacted]

theorem Reads.matchTerm_eq (reads : log.Reads storage) (shaped : (log.onto storage).Shaped)
    (index term : Nat) : log.matchTerm index term = (log.onto storage).matchTerm index term := by
  have same := reads.term_eq shaped index
  unfold matchTerm RaftLog.matchTerm
  generalize log.term index = found at same ⊢
  subst same
  rfl

theorem storage_slice_congr {left right : LogStore} {lo hi maxSize : Nat}
    (first : left.firstEntryIndex = right.firstEntryIndex)
    (same : left.entries.take (hi - right.firstIndex) = right.entries.take (hi - right.firstIndex))
    (leftEnd : hi ≤ left.lastIndex + 1) (rightEnd : hi ≤ right.lastIndex + 1)
    (above : right.firstEntryIndex < lo) (proper : lo < hi) :
    left.slice sizes lo hi maxSize = right.slice sizes lo hi maxSize := by
  rw [RaftLog.storage_slice_ok (first ▸ above) proper leftEnd, RaftLog.storage_slice_ok above proper rightEnd,
    show left.firstIndex = right.firstIndex by simp only [LogStore.firstIndex, first]]
  have cut (entries : List Entry) : (entries.drop (lo - right.firstIndex)).take (hi - lo) =
      (entries.take (hi - right.firstIndex)).drop (lo - right.firstIndex) := by
    rw [drop_take]
    congr 1
    simp only [LogStore.firstIndex]
    omega
  rw [cut, cut, same]

theorem Reads.slice_eq (reads : log.Reads storage) (shaped : (log.onto storage).Shaped)
    (lo hi maxSize : Nat) :
    log.slice sizes lo hi maxSize = (log.onto storage).slice sizes lo hi maxSize := by
  have first := reads.firstIndex_eq
  have last := reads.lastIndex_eq shaped
  have bounds : log.mustCheckOutOfBounds lo hi = (log.onto storage).mustCheckOutOfBounds lo hi := by
    unfold mustCheckOutOfBounds RaftLog.mustCheckOutOfBounds
    rw [first, last]
  unfold slice RaftLog.slice
  rw [bounds]
  cases checked : (log.onto storage).mustCheckOutOfBounds lo hi with
  | none => rfl
  | some result =>
    cases result with
    | error => rfl
    | ok =>
      simp only [bind_eq_bind, bind_some, sliceWithin]
      by_cases empty : lo = hi
      · rw [if_pos empty, if_pos empty]
      by_cases unstable : lo ≥ log.base.unstable.offset
      · rw [if_pos unstable, if_pos (show lo ≥ (log.onto storage).unstable.offset from unstable)]
        rfl
      have inside : lo ≤ hi ∧ (log.onto storage).firstIndex ≤ lo := by
        unfold RaftLog.mustCheckOutOfBounds checkOutOfBounds at checked
        split at checked
        · cases checked
        split at checked
        · cases checked
        · omega
      -- a snapshot would have left nothing below the tail
      have noSnapshot : log.snapshot = none := by
        cases pending : log.snapshot with
        | none => rfl
        | some snapshot =>
          obtain ⟨firstEntry, -, offset⟩ := reads.ofSnapshot snapshot pending
          simp only [RaftLog.firstIndex, LogStore.firstIndex, onto] at inside
          omega
      obtain ⟨firstEntry, -, same, stored, -⟩ := reads.ofStorage noSnapshot
      have high := shaped.high
      have read : log.base.storage.slice sizes lo (min hi log.base.unstable.offset) maxSize =
          storage.slice sizes lo (min hi log.base.unstable.offset) maxSize := by
        refine storage_slice_congr firstEntry ?_ (by omega) (by simp only [onto] at high; omega) ?_ (by omega)
        · have shorter := congrArg (List.take (min hi log.base.unstable.offset - storage.firstIndex)) same
          simp only [take_take] at shorter
          rwa [Nat.min_eq_left (by omega)] at shorter
        · simp only [RaftLog.firstIndex, LogStore.firstIndex, onto] at inside
          omega
      rw [read]
      rfl

theorem append_frame (done : log.append entries = some next) :
    next.snapshot = log.snapshot ∧ next.snapshotInProgress = log.snapshotInProgress ∧
      next.base = { log.base with unstable := next.base.unstable } := by
  obtain ⟨base, appended, rfl⟩ := map_eq_some_iff.mp done
  refine ⟨rfl, rfl, ?_⟩
  unfold RaftLog.append at appended
  split at appended
  · cases appended
    rfl
  · split at appended
    · cases appended
    · obtain ⟨unstable, -, rfl⟩ := map_eq_some_iff.mp appended
      rfl

/-- The storage still gives the reads once entries are appended: they do not
reach below what is committed, and so not below a snapshot. -/
theorem Reads.append (reads : log.Reads storage) (shaped : (log.onto storage).Shaped)
    (kept : storage.firstEntryIndex ≤ log.base.committed) {start : Nat} (nonempty : entries ≠ [])
    (consecutive : Consecutive start entries) (above : log.base.committed < start)
    (done : log.append entries = some next) :
    next.Reads storage ∧ RaftLog.Appended (log.onto storage) start entries (next.onto storage) := by
  obtain ⟨snapshot, -, frame⟩ := append_frame done
  have appended : (log.onto storage).append entries = some (next.onto storage) := by
    change _ = (some next).map fun next => next.onto storage
    rw [← done]
    unfold SnapshotLog.append RaftLog.append onto
    cases entries with
    | nil => rfl
    | cons head rest =>
      simp only
      split
      · rfl
      · simp only [Option.map_map]
        rfl
  obtain ⟨-, written⟩ := shaped.append nonempty consecutive
    (show (log.onto storage).boundary < start from Nat.lt_of_le_of_lt kept above) appended
  have offset : next.base.unstable.offset = min log.base.unstable.offset start := written.offset
  have filled : next.base.unstable.entries ≠ [] := by
    intro empty
    have total : (next.onto storage).unstable.entries.length = 0 := by
      rw [show (next.onto storage).unstable = next.base.unstable from rfl, empty, length_nil]
    have last := written.shaped.lastIndex_unstable
    have length := written.shaped.lastIndex_eq
    have lastBefore := shaped.lastIndex_unstable
    have lengthBefore := shaped.lastIndex_eq
    have positive := length_pos_iff.mpr nonempty
    rw [written.suffix, length_append, length_take] at length
    rw [written.offset] at last
    have boundary : (next.onto storage).boundary = (log.onto storage).boundary := rfl
    omega
  refine ⟨⟨fun pending isPending => ?_, fun noSnapshot => ?_⟩, written⟩
  · rw [snapshot] at isPending
    obtain ⟨firstEntry, boundaryTerm, before⟩ := reads.ofSnapshot pending isPending
    exact ⟨firstEntry, boundaryTerm, by omega⟩
  · rw [snapshot] at noSnapshot
    obtain ⟨firstEntry, boundaryTerm, same, stored, -⟩ := reads.ofStorage noSnapshot
    have storedSame : next.base.storage = log.base.storage := by rw [frame]
    rw [storedSame, offset]
    refine ⟨firstEntry, boundaryTerm, ?_, by omega, fun empty => absurd empty filled⟩
    have shorter := congrArg (List.take (min log.base.unstable.offset start - storage.firstIndex)) same
    simp only [take_take] at shorter
    rwa [Nat.min_eq_left (by omega)] at shorter

theorem commitTo_frame {tocommit : Nat} (done : log.commitTo tocommit = some next) :
    next = { log with base := { log.base with committed := max log.base.committed tocommit } } := by
  unfold SnapshotLog.commitTo at done
  split at done
  next behind =>
    split at done
    · cases done
    · rw [Nat.max_eq_right (Nat.le_of_lt behind)]
      exact (Option.some.inj done).symm
  · rw [Nat.max_eq_left (by omega)]
    exact (Option.some.inj done).symm

theorem Reads.commitTo (reads : log.Reads storage) (shaped : (log.onto storage).Shaped) {tocommit : Nat}
    (done : log.commitTo tocommit = some next) (behind : log.base.committed < tocommit) :
    tocommit ≤ (log.onto storage).lastIndex := by
  unfold SnapshotLog.commitTo at done
  rw [if_pos behind, reads.lastIndex_eq shaped] at done
  split at done
  · cases done
  · omega

theorem findConflict_cases (log : SnapshotLog) (entries : List Entry) :
    (log.findConflict entries = 0 ∧ ∀ entry ∈ entries, log.matchTerm entry.index entry.term = true) ∨
      ∃ before entry after, entries = before ++ entry :: after ∧ log.findConflict entries = entry.index ∧
        log.matchTerm entry.index entry.term = false ∧
        ∀ known ∈ before, log.matchTerm known.index known.term = true := by
  induction entries with
  | nil => exact .inl ⟨rfl, fun entry mem => nomatch mem⟩
  | cons first rest ih =>
    unfold findConflict
    cases matched : log.matchTerm first.index first.term with
    | false =>
      exact .inr ⟨[], first, rest, rfl, by simp, matched, fun known mem => nomatch mem⟩
    | true =>
      rcases ih with ⟨none, all⟩ | ⟨before, entry, after, rfl, found, differs, known⟩
      · exact .inl ⟨none, fun entry mem => (mem_cons.mp mem).elim (· ▸ matched) (all entry)⟩
      · exact .inr ⟨first :: before, entry, after, rfl, found, differs,
          fun known' mem => (mem_cons.mp mem).elim (· ▸ matched) (known known')⟩

/-- What appending the new ones of some entries does: nothing if there are none,
and else the tail is replaced from the first of them on. -/
theorem appendNew_cases (consecutive : Consecutive (index + 1) entries)
    (done : log.appendNew index entries = some next) :
    (next = log ∧ ∀ entry ∈ entries, log.matchTerm entry.index entry.term = true) ∨
      ∃ before entry after, entries = before ++ entry :: after ∧
        log.base.committed < entry.index ∧ log.matchTerm entry.index entry.term = false ∧
        (∀ known ∈ before, log.matchTerm known.index known.term = true) ∧
        log.append (entry :: after) = some next := by
  unfold appendNew at done
  rcases log.findConflict_cases entries with ⟨none, all⟩ | ⟨before, entry, after, rfl, found, differs, known⟩
  · simp only [none] at done
    exact .inl ⟨(Option.some.inj done).symm, all⟩
  · have position : entry.index = index + 1 + before.length := consecutive before.length entry (by simp)
    simp only [found] at done
    rw [if_neg (by omega)] at done
    split at done
    · cases done
    rename_i uncommitted
    split at done
    · cases done
    · rw [show entry.index - (index + 1) = before.length by omega, drop_left] at done
      exact .inr ⟨before, entry, after, rfl, Nat.lt_of_not_le uncommitted, differs, known, done⟩

theorem maybeAppend_cases {logTerm committed : Nat} {lastNew : Option Nat}
    (done : log.maybeAppend index logTerm committed entries = some (next, lastNew)) :
    (next = log ∧ log.matchTerm index logTerm = false) ∨
      ∃ middle, log.matchTerm index logTerm = true ∧ log.appendNew index entries = some middle ∧
        middle.commitTo (min committed (index + entries.length)) = some next := by
  unfold maybeAppend at done
  split at done
  next differs =>
    cases done
    exact .inl ⟨rfl, by simpa using differs⟩
  next matched =>
    obtain ⟨middle, appended, done⟩ := bind_eq_some_iff.mp done
    obtain ⟨final, advanced, done⟩ := bind_eq_some_iff.mp done
    cases done
    exact .inr ⟨middle, by simpa using matched, appended, advanced⟩

end RocksGraph.Eraft.SnapshotLog

namespace RocksGraph.Eraft.RaftLog

open List

variable {log next : RaftLog} {start : Nat} {entries : List Entry}

/-! ## Terms -/

section Terms

variable (appended : Appended log start entries next) (shaped : log.Shaped) (nonempty : entries ≠ [])
  (consecutive : Consecutive start entries) (above : log.boundary < start)

include appended nonempty consecutive

theorem Appended.start_le : (log.suffix.take (start - (log.boundary + 1))).length = start - (log.boundary + 1) := by
  obtain ⟨head, rest, rfl⟩ := exists_cons_of_ne_nil nonempty
  have numbered := appended.shaped.consecutive
  have boundary : next.boundary = log.boundary := by rw [appended.frame]; rfl
  rw [appended.suffix, boundary] at numbered
  have := numbered (log.suffix.take (start - (log.boundary + 1))).length head (by simp)
  have := consecutive.head
  omega

include above

theorem Appended.term_new {entry : Entry} (mem : entry ∈ entries) : next.term entry.index = .ok entry.term := by
  have length := appended.start_le nonempty consecutive
  have boundary : next.boundary = log.boundary := by rw [appended.frame]; rfl
  obtain ⟨k, isEntry⟩ := mem_iff_getElem?.mp mem
  have position := consecutive k entry isEntry
  rw [appended.shaped.term_eq]
  unfold suffixTerm
  rw [boundary, if_neg (by omega), if_neg (by omega), appended.suffix,
    getElem?_append_right (by omega), length,
    show entry.index - (log.boundary + 1) - (start - (log.boundary + 1)) = k by omega, isEntry]

theorem Appended.lastIndex_eq : next.lastIndex + 1 = start + entries.length := by
  have length := appended.start_le nonempty consecutive
  have boundary : next.boundary = log.boundary := by rw [appended.frame]; rfl
  have last := appended.shaped.lastIndex_eq
  rw [appended.suffix, length_append] at last
  omega

include shaped

theorem Appended.term_below (below : index < start) : next.term index = log.term index := by
  have length := appended.start_le nonempty consecutive
  have boundary : next.boundary = log.boundary := by rw [appended.frame]; rfl
  have storage : next.storage = log.storage := by rw [appended.frame]
  rw [appended.shaped.term_eq, shaped.term_eq]
  unfold suffixTerm
  rw [boundary, storage]
  split
  · rfl
  split
  · rfl
  · rw [appended.suffix, getElem?_append_left (by omega), getElem?_take, if_pos (by omega)]

theorem Appended.term_cases {term : Nat} (found : next.term index = .ok term) :
    (index < start ∧ log.term index = .ok term) ∨
      ∃ entry ∈ entries, entry.index = index ∧ entry.term = term := by
  by_cases below : index < start
  · exact .inl ⟨below, (appended.term_below shaped nonempty consecutive above below).symm.trans found⟩
  have last := appended.lastIndex_eq nonempty consecutive above
  have inLog := (appended.shaped.term_inside found).2
  have inside : index - start < entries.length := by omega
  have isEntry : entries[index - start]? = some entries[index - start] := getElem?_eq_getElem inside
  have position := consecutive _ _ isEntry
  have mem : entries[index - start] ∈ entries := getElem_mem inside
  have new := appended.term_new nonempty consecutive above mem
  rw [position, show start + (index - start) = index by omega, found] at new
  exact .inr ⟨_, mem, by omega, (Except.ok.inj new).symm⟩

end Terms

def dropUnstable (log : RaftLog) (index : Nat) : RaftLog :=
  { log with unstable := {
    entries := log.unstable.entries.drop (index + 1 - log.unstable.offset)
    offset := index + 1
    offsetInProgress := max log.unstable.offsetInProgress (index + 1) } }

theorem Shaped.dropUnstable (shaped : log.Shaped) (above : log.unstable.offset ≤ index)
    (accepted : index < log.unstable.offsetInProgress) :
    (log.dropUnstable index).Shaped ∧ (log.dropUnstable index).suffix = log.suffix := by
  have pending := shaped.pending
  -- what leaves the tail is in the storage
  have stored := shaped.stored_upTo (Nat.le_succ_of_le above) accepted
  have enough := congrArg List.length stored
  rw [length_append, shaped.stored_length, length_take, length_take] at enough
  refine ⟨⟨?_, ?_, ?_, ?_, ?_, ?_, shaped.storedIndexes, ?_⟩, ?_⟩
  · simp only [RaftLog.dropUnstable]
    omega
  · simp only [RaftLog.dropUnstable, LogStore.lastIndex, LogStore.firstIndex] at *
    omega
  · have closed := shaped.closed
    simp only [RaftLog.dropUnstable, length_drop]
    omega
  · simp only [RaftLog.dropUnstable]
    omega
  · simp only [RaftLog.dropUnstable, length_drop]
    omega
  · simp only [RaftLog.dropUnstable]
    rw [Nat.max_eq_left (by omega), take_drop,
      show index + 1 - log.unstable.offset + (log.unstable.offsetInProgress - (index + 1)) =
        log.unstable.offsetInProgress - log.unstable.offset by omega]
    obtain ⟨others, split⟩ := shaped.stored
    have rest := congrArg (List.drop (index + 1 - log.unstable.offset)) split
    rw [drop_append_of_le_length (by rw [length_take]; omega), drop_drop,
      show log.unstable.offset - log.storage.firstIndex + (index + 1 - log.unstable.offset) =
        index + 1 - log.storage.firstIndex by omega] at rest
    exact ⟨others, rest⟩
  · have consecutive := shaped.unstableIndexes.drop (index + 1 - log.unstable.offset)
    rwa [show log.unstable.offset + (index + 1 - log.unstable.offset) = index + 1 by omega] at consecutive
  · unfold suffix
    simp only [RaftLog.dropUnstable]
    rw [stored, append_assoc, take_append_drop]

theorem Shaped.term_of_suffix (shaped : log.Shaped) (nextShaped : next.Shaped)
    (suffix : next.suffix = log.suffix) (boundary : next.boundary = log.boundary)
    (boundaryTerm : next.storage.boundaryTerm = log.storage.boundaryTerm) (index : Nat) :
    next.term index = log.term index := by
  rw [nextShaped.term_eq, shaped.term_eq]
  unfold suffixTerm
  rw [suffix, boundary, boundaryTerm]

end RocksGraph.Eraft.RaftLog
