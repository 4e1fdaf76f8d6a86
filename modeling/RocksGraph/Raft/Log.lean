import RocksGraph.Raft.Message

/-! The replicated log of one node: the stored part, the unstable tail and the
positions in it (`raft_log_store.cc`, `log_unstable.h`, `log.h`).

A function that can end the process (`ERAFT_FATAL`, `LOG_FATAL`) returns an
option, and `none` is the end of the process. A snapshot never becomes part of
the unstable log: the driver does not step snapshot messages. -/

set_option autoImplicit false

namespace RocksGraph.Eraft

structure Sizes where
  entry : Entry → Nat
  payload : Entry → Nat

def entsSize (sizes : Sizes) (entries : List Entry) : Nat := (entries.map sizes.entry).sum

def payloadsSize (sizes : Sizes) (entries : List Entry) : Nat := (entries.map sizes.payload).sum

/-- The entries that `limitSize` keeps after the first, which is always kept,
when the entries before them have this size. -/
def withinLimit (sizes : Sizes) (maxSize : Nat) (size : Nat) : List Entry → List Entry
  | [] => []
  | entry :: rest =>
    if size + sizes.entry entry > maxSize then []
    else entry :: withinLimit sizes maxSize (size + sizes.entry entry) rest

def limitSize (sizes : Sizes) (maxSize : Nat) : List Entry → List Entry
  | [] => []
  | entry :: rest => entry :: withinLimit sizes maxSize (sizes.entry entry) rest

inductive LogError where
  | compacted
  | unavailable
  deriving DecidableEq, Repr

/-- What `RaftLogStorage` keeps: the boundary entry at `firstEntryIndex`, of
which only the term counts, and the entries after it. -/
structure LogStore where
  firstEntryIndex : Nat
  boundaryTerm : Nat
  entries : List Entry
  hardState : HardState
  deriving DecidableEq, Repr

namespace LogStore

/-- A store that `Init` has just created: the dummy entry and no hard state. -/
def created : LogStore := ⟨0, 0, [], .empty⟩

variable (store : LogStore)

def lastIndex : Nat := store.firstEntryIndex + store.entries.length

def firstIndex : Nat := store.firstEntryIndex + 1

def hasLogs : Bool := 0 < store.lastIndex

def term (store : LogStore) (index : Nat) : Except LogError Nat :=
  if index < store.firstEntryIndex then .error .compacted
  else if index = store.firstEntryIndex then .ok store.boundaryTerm
  else match store.entries[index - store.firstIndex]? with
    | some entry => .ok entry.term
    | none => .error .unavailable

def slice (sizes : Sizes) (store : LogStore) (lo hi maxSize : Nat) :
    Option (Except LogError (List Entry)) :=
  if lo ≤ store.firstEntryIndex then some (.error .compacted)
  else if hi > store.lastIndex + 1 then none
  else if store.entries.isEmpty then some (.error .unavailable)
  else
    match limitSize sizes maxSize ((store.entries.drop (lo - store.firstIndex)).take (hi - lo)) with
    | [] => none
    | found => some (.ok found)

def append (entries : List Entry) : LogStore :=
  match entries with
  | [] => store
  | head :: _ =>
    if head.index + entries.length - 1 < store.firstIndex then store
    else
      let kept := entries.drop (store.firstIndex - head.index)
      let start := max head.index store.firstIndex
      { store with entries := store.entries.take (start - store.firstIndex) ++ kept }

def setHardState (hardState : HardState) : LogStore := { store with hardState }

def snapshot : Option SnapshotMeta :=
  if store.firstEntryIndex = 0 then none else some ⟨store.firstEntryIndex, store.boundaryTerm⟩

end LogStore

/-- Entries that are not known to be stored; the first has index `offset`. -/
structure Unstable where
  entries : List Entry
  offset : Nat
  offsetInProgress : Nat
  deriving DecidableEq, Repr

namespace Unstable

variable (unstable : Unstable)

def maybeLastIndex : Option Nat :=
  if unstable.entries.isEmpty then none
  else some (unstable.offset + unstable.entries.length - 1)

def maybeTerm (index : Nat) : Option Nat :=
  if index < unstable.offset then none
  else (unstable.entries[index - unstable.offset]?).map Entry.term

def nextEntries : List Entry :=
  unstable.entries.drop (unstable.offsetInProgress - unstable.offset)

def acceptInProgress : Unstable :=
  match unstable.entries.getLast? with
  | some last => { unstable with offsetInProgress := last.index + 1 }
  | none => unstable

def stableTo (index term : Nat) : Unstable :=
  match unstable.maybeTerm index with
  | none => unstable
  | some found =>
    if found ≠ term then unstable
    else {
      entries := unstable.entries.drop (index + 1 - unstable.offset)
      offset := index + 1
      offsetInProgress := max unstable.offsetInProgress (index + 1) }

def slice (lo hi : Nat) : Option (List Entry) :=
  if lo > hi then none
  else if lo < unstable.offset ∨ hi > unstable.offset + unstable.entries.length then none
  else some ((unstable.entries.drop (lo - unstable.offset)).take (hi - lo))

def truncateAndAppend (entries : List Entry) : Option Unstable :=
  match entries with
  | [] => some unstable
  | head :: _ =>
    if head.index = unstable.offset + unstable.entries.length then
      some { unstable with entries := unstable.entries ++ entries }
    else if head.index ≤ unstable.offset then
      some ⟨entries, head.index, head.index⟩
    else do
      let keep ← unstable.slice unstable.offset head.index
      return ⟨keep ++ entries, unstable.offset, min unstable.offsetInProgress head.index⟩

end Unstable

/-- `mustCheckOutOfBounds` of a log from `firstIndex` to `lastIndex`. -/
def checkOutOfBounds (firstIndex lastIndex lo hi : Nat) : Option (Except LogError Unit) :=
  if lo > hi then none
  else if lo < firstIndex then some (.error .compacted)
  else if hi > firstIndex + (lastIndex + 1 - firstIndex) then none
  else some (.ok ())

/-- `slice` within the bounds. -/
def sliceWithin (sizes : Sizes) (storage : LogStore) (unstable : Unstable) (lo hi maxSize : Nat) :
    Option (Except LogError (List Entry)) := do
  if lo = hi then return .ok []
  if lo ≥ unstable.offset then
    let entries ← unstable.slice lo hi
    return .ok (limitSize sizes maxSize entries)
  let cut := min hi unstable.offset
  match ← storage.slice sizes lo cut maxSize with
  | .error .compacted => return .error .compacted
  | .error .unavailable => none
  | .ok stored =>
    if hi ≤ unstable.offset then return .ok stored
    if stored.length < cut - lo then return .ok stored
    let size := entsSize sizes stored
    if size ≥ maxSize then return .ok stored
    let rest ← unstable.slice unstable.offset hi
    let rest := limitSize sizes (maxSize - size) rest
    if rest.length = 1 ∧ size + entsSize sizes rest > maxSize then return .ok stored
    return .ok (stored ++ rest)

structure RaftLog where
  storage : LogStore
  unstable : Unstable
  committed : Nat
  applying : Nat
  applied : Nat
  maxApplyingEntsSize : Nat
  applyingEntsSize : Nat
  applyingEntsPaused : Bool
  deriving DecidableEq, Repr

namespace RaftLog

def new (storage : LogStore) (maxApplyingEntsSize : Nat) : RaftLog where
  storage := storage
  unstable := ⟨[], storage.lastIndex + 1, storage.lastIndex + 1⟩
  committed := storage.firstIndex - 1
  applying := storage.firstIndex - 1
  applied := storage.firstIndex - 1
  maxApplyingEntsSize := maxApplyingEntsSize
  applyingEntsSize := 0
  applyingEntsPaused := false

def firstIndex (log : RaftLog) : Nat := log.storage.firstIndex

def lastIndex (log : RaftLog) : Nat := log.unstable.maybeLastIndex.getD log.storage.lastIndex

def term (log : RaftLog) (index : Nat) : Except LogError Nat :=
  match log.unstable.maybeTerm index with
  | some term => .ok term
  | none =>
    if index + 1 < log.firstIndex then .error .compacted
    else if index > log.lastIndex then .error .unavailable
    else log.storage.term index

variable (log : RaftLog)

def matchTerm (index term : Nat) : Bool :=
  match log.term index with
  | .ok found => found = term
  | .error _ => false

def zeroTermOnOutOfBounds : Except LogError Nat → Nat
  | .ok term => term
  | .error _ => 0

def lastTerm : Option Nat := (log.term log.lastIndex).toOption

def findConflict (log : RaftLog) : List Entry → Nat
  | [] => 0
  | entry :: rest =>
    if log.matchTerm entry.index entry.term then log.findConflict rest else entry.index

def append (entries : List Entry) : Option RaftLog :=
  match entries with
  | [] => some log
  | head :: _ =>
    if head.index - 1 < log.committed then none
    else (log.unstable.truncateAndAppend entries).map fun unstable => { log with unstable }

def commitTo (tocommit : Nat) : Option RaftLog :=
  if log.committed < tocommit then
    if log.lastIndex < tocommit then none else some { log with committed := tocommit }
  else some log

/-- Append those of the entries after `index` that the log does not have. -/
def appendNew (index : Nat) (entries : List Entry) : Option RaftLog :=
  let ci := log.findConflict entries
  if ci = 0 then some log
  else if ci ≤ log.committed then none
  else if ci - (index + 1) > entries.length then none
  else log.append (entries.drop (ci - (index + 1)))

def maybeAppend (index logTerm committed : Nat) (entries : List Entry) :
    Option (RaftLog × Option Nat) :=
  if ¬ log.matchTerm index logTerm then some (log, none)
  else do
    let lastnewi := index + entries.length
    let log ← log.appendNew index entries
    let log ← log.commitTo (min committed lastnewi)
    return (log, some lastnewi)

def findConflictByTerm (log : RaftLog) (index term : Nat) : Nat × Nat :=
  match index with
  | 0 => (0, 0)
  | index + 1 =>
    match log.term (index + 1) with
    | .error _ => (index + 1, 0)
    | .ok ourTerm => if ourTerm ≤ term then (index + 1, ourTerm) else log.findConflictByTerm index term

def nextUnstableEnts : List Entry := log.unstable.nextEntries

def mustCheckOutOfBounds (lo hi : Nat) : Option (Except LogError Unit) :=
  checkOutOfBounds log.firstIndex log.lastIndex lo hi

def slice (sizes : Sizes) (log : RaftLog) (lo hi maxSize : Nat) :
    Option (Except LogError (List Entry)) := do
  match ← log.mustCheckOutOfBounds lo hi with
  | .error error => return .error error
  | .ok () => sliceWithin sizes log.storage log.unstable lo hi maxSize

/-- Entries may be handed out before they are stored; the driver stores them first. -/
def nextCommittedEnts (sizes : Sizes) (log : RaftLog) : Option (List Entry) :=
  if log.applyingEntsPaused then some []
  else if log.applying + 1 ≥ log.committed + 1 then some []
  else if log.maxApplyingEntsSize - log.applyingEntsSize = 0 then none
  else do
    match ← log.slice sizes (log.applying + 1) (log.committed + 1)
        (log.maxApplyingEntsSize - log.applyingEntsSize) with
    | .error _ => none
    | .ok entries => return entries

def hasNextCommittedEnts : Bool :=
  !log.applyingEntsPaused && log.applying + 1 < log.committed + 1

def appliedTo (index size : Nat) : Option RaftLog :=
  if log.committed < index ∨ index < log.applied then none
  else
    let applyingEntsSize := log.applyingEntsSize - size
    some { log with
      applied := index
      applying := max log.applying index
      applyingEntsSize
      applyingEntsPaused := applyingEntsSize ≥ log.maxApplyingEntsSize }

def acceptApplying (index size : Nat) : Option RaftLog :=
  if log.committed < index then none
  else
    let applyingEntsSize := log.applyingEntsSize + size
    some { log with
      applying := index
      applyingEntsSize
      applyingEntsPaused := applyingEntsSize ≥ log.maxApplyingEntsSize || index < log.committed }

def stableTo (log : RaftLog) (index term : Nat) : RaftLog :=
  { log with unstable := log.unstable.stableTo index term }

def acceptUnstable : RaftLog :=
  { log with unstable := log.unstable.acceptInProgress }

def entries (sizes : Sizes) (log : RaftLog) (index maxSize : Nat) :
    Option (Except LogError (List Entry)) :=
  if index > log.lastIndex then some (.ok []) else log.slice sizes index (log.lastIndex + 1) maxSize

def isUpToDate (lasti term : Nat) : Option Bool := do
  let lastTerm ← log.lastTerm
  return term > lastTerm || (term = lastTerm && lasti ≥ log.lastIndex)

def maybeCommit (maxIndex term : Nat) : Option (RaftLog × Bool) :=
  if maxIndex > log.committed ∧ term ≠ 0 ∧ zeroTermOnOutOfBounds (log.term maxIndex) = term then
    (log.commitTo maxIndex).map fun log => (log, true)
  else some (log, false)

/-- Whether a configuration change lies in `[lo, hi)`, which `scan` reads page
by page; every page has an entry, so the range bounds their number. -/
def scanConfChange (sizes : Sizes) (log : RaftLog) (hi pageSize : Nat) : Nat → Nat → Option Bool
  | 0, _ => some false
  | fuel + 1, lo =>
    if lo ≥ hi then some false
    else do
      match ← log.slice sizes lo hi pageSize with
      | .error _ => none
      | .ok [] => none
      | .ok page =>
        if page.any fun entry => entry.payload.isConfChange then return true
        else log.scanConfChange sizes hi pageSize fuel (lo + page.length)

def hasUnappliedConfChanges (sizes : Sizes) (log : RaftLog) : Option Bool :=
  if log.applied ≥ log.committed then some false
  else log.scanConfChange sizes (log.committed + 1) log.maxApplyingEntsSize
    (log.committed - log.applied) (log.applied + 1)

end RaftLog

end RocksGraph.Eraft
