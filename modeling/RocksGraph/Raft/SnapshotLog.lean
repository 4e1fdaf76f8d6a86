import RocksGraph.Raft.Log

/-! The log of a node that also restores snapshots (`log_unstable.h`, `log.h`).

`RaftLog` is the log of this server's driver, which never steps a snapshot
message. Here the unstable tail may also hold a snapshot that the storage has
not applied, and every accessor consults it first, as the library does. The
functions that do not look at the snapshot are those of `RaftLog`. -/

set_option autoImplicit false

namespace RocksGraph.Eraft

structure SnapshotLog where
  base : RaftLog
  snapshot : Option SnapshotMeta
  snapshotInProgress : Bool
  deriving DecidableEq, Repr

namespace SnapshotLog

variable (log : SnapshotLog)

def maybeFirstIndex : Option Nat :=
  log.snapshot.map fun snapshot => snapshot.index + 1

def maybeLastIndex : Option Nat :=
  if log.base.unstable.entries.isEmpty then log.snapshot.map SnapshotMeta.index
  else some (log.base.unstable.offset + log.base.unstable.entries.length - 1)

def maybeTerm (index : Nat) : Option Nat :=
  if index < log.base.unstable.offset then
    match log.snapshot with
    | some snapshot => if snapshot.index = index then some snapshot.term else none
    | none => none
  else
    match log.maybeLastIndex with
    | none => none
    | some last =>
      if index > last then none
      else (log.base.unstable.entries[index - log.base.unstable.offset]?).map Entry.term

def nextSnapshot : Option SnapshotMeta :=
  if log.snapshotInProgress then none else log.snapshot

def acceptInProgress : SnapshotLog where
  base := log.base.acceptUnstable
  snapshot := log.snapshot
  snapshotInProgress := log.snapshot.isSome || log.snapshotInProgress

def stableTo (index term : Nat) : SnapshotLog :=
  match log.maybeTerm index with
  | none => log
  | some found =>
    -- the index may be that of the snapshot
    if index < log.base.unstable.offset then log
    else if found ≠ term then log
    else { log with base := { log.base with unstable := {
      entries := log.base.unstable.entries.drop (index + 1 - log.base.unstable.offset)
      offset := index + 1
      offsetInProgress := max log.base.unstable.offsetInProgress (index + 1) } } }

def stableSnapTo (index : Nat) : SnapshotLog :=
  match log.snapshot with
  | some snapshot =>
    if snapshot.index = index then { log with snapshot := none, snapshotInProgress := false } else log
  | none => log

def restore (snapshot : SnapshotMeta) : SnapshotLog where
  base := { log.base with
    committed := snapshot.index
    unstable := ⟨[], snapshot.index + 1, snapshot.index + 1⟩ }
  snapshot := some snapshot
  snapshotInProgress := false

def new (storage : LogStore) (maxApplyingEntsSize : Nat) : SnapshotLog :=
  ⟨RaftLog.new storage maxApplyingEntsSize, none, false⟩

def firstIndex (log : SnapshotLog) : Nat := log.maybeFirstIndex.getD log.base.storage.firstIndex

def lastIndex (log : SnapshotLog) : Nat := log.maybeLastIndex.getD log.base.storage.lastIndex

def term (log : SnapshotLog) (index : Nat) : Except LogError Nat :=
  match log.maybeTerm index with
  | some term => .ok term
  | none =>
    if index + 1 < log.firstIndex then .error .compacted
    else if index > log.lastIndex then .error .unavailable
    else log.base.storage.term index

def matchTerm (index term : Nat) : Bool :=
  match log.term index with
  | .ok found => found = term
  | .error _ => false

def lastTerm : Option Nat := (log.term log.lastIndex).toOption

def findConflict (log : SnapshotLog) : List Entry → Nat
  | [] => 0
  | entry :: rest =>
    if log.matchTerm entry.index entry.term then log.findConflict rest else entry.index

def append (log : SnapshotLog) (entries : List Entry) : Option SnapshotLog :=
  (log.base.append entries).map fun base => { log with base }

def commitTo (tocommit : Nat) : Option SnapshotLog :=
  if log.base.committed < tocommit then
    if log.lastIndex < tocommit then none
    else some { log with base := { log.base with committed := tocommit } }
  else some log

/-- Append those of the entries after `index` that the log does not have. -/
def appendNew (index : Nat) (entries : List Entry) : Option SnapshotLog :=
  let ci := log.findConflict entries
  if ci = 0 then some log
  else if ci ≤ log.base.committed then none
  else if ci - (index + 1) > entries.length then none
  else log.append (entries.drop (ci - (index + 1)))

def maybeAppend (index logTerm committed : Nat) (entries : List Entry) :
    Option (SnapshotLog × Option Nat) :=
  if ¬ log.matchTerm index logTerm then some (log, none)
  else do
    let lastnewi := index + entries.length
    let log ← log.appendNew index entries
    let log ← log.commitTo (min committed lastnewi)
    return (log, some lastnewi)

def mustCheckOutOfBounds (lo hi : Nat) : Option (Except LogError Unit) :=
  checkOutOfBounds log.firstIndex log.lastIndex lo hi

def slice (sizes : Sizes) (log : SnapshotLog) (lo hi maxSize : Nat) :
    Option (Except LogError (List Entry)) := do
  match ← log.mustCheckOutOfBounds lo hi with
  | .error error => return .error error
  | .ok () => sliceWithin sizes log.base.storage log.base.unstable lo hi maxSize

def maxAppliableIndex (allowUnstable : Bool) : Nat :=
  if allowUnstable then log.base.committed
  else min log.base.committed (log.base.unstable.offset - 1)

/-- The committed entries to hand out next; none while a snapshot is waiting. -/
def nextCommittedEnts (sizes : Sizes) (log : SnapshotLog) (allowUnstable : Bool) :
    Option (List Entry) :=
  if log.base.applyingEntsPaused then some []
  else if log.snapshot.isSome then some []
  else if log.base.applying + 1 ≥ log.maxAppliableIndex allowUnstable + 1 then some []
  else if log.base.maxApplyingEntsSize - log.base.applyingEntsSize = 0 then none
  else do
    match ← log.slice sizes (log.base.applying + 1) (log.maxAppliableIndex allowUnstable + 1)
        (log.base.maxApplyingEntsSize - log.base.applyingEntsSize) with
    | .error _ => none
    | .ok entries => return entries

def appliedTo (log : SnapshotLog) (index size : Nat) : Option SnapshotLog :=
  (log.base.appliedTo index size).map fun base => { log with base }

def acceptApplying (index size : Nat) (allowUnstable : Bool) : Option SnapshotLog :=
  if log.base.committed < index then none
  else
    let applyingEntsSize := log.base.applyingEntsSize + size
    some { log with base := { log.base with
      applying := index
      applyingEntsSize
      applyingEntsPaused := applyingEntsSize ≥ log.base.maxApplyingEntsSize ||
        index < log.maxAppliableIndex allowUnstable } }

def maybeCommit (maxIndex term : Nat) : Option SnapshotLog :=
  if maxIndex > log.base.committed ∧ term ≠ 0 ∧
      RaftLog.zeroTermOnOutOfBounds (log.term maxIndex) = term then log.commitTo maxIndex
  else some log

end SnapshotLog

end RocksGraph.Eraft
