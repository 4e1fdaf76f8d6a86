import RocksGraph.Raft.Node
import RocksGraph.Raft.SnapshotLog

/-! A `RawNode` as its log sees it (`rawnode.h`, the calls of `raft.h` that reach
the log).

Raft changes its log by few calls: it appends proposals, accepts the entries of
an append message, advances the commit index, restores a snapshot, and takes the
answers of the storage. An input is one such call; which one a message causes is
left open, so that every run of the library is a run here. The storage works
through the tasks of the readies in their order. With `asyncStorageWrites` the
answers come as messages of their own, without it `Advance` gives them. -/

set_option autoImplicit false

namespace RocksGraph.Eraft

/-- What a ready asks the storage to write, and what the answer will attest
(`MsgStorageAppend` and its `MsgStorageAppendResp`). Index 0 attests no entry. -/
structure AppendTask where
  entries : List Entry
  snapshot : Option SnapshotMeta
  term : Nat
  index : Nat
  logTerm : Nat
  deriving DecidableEq, Repr

namespace LogStore

/-- `ApplySnapshot` of a snapshot that is ahead of the storage. -/
def applySnapshot (store : LogStore) (snapshot : SnapshotMeta) : LogStore :=
  { store with firstEntryIndex := snapshot.index, boundaryTerm := snapshot.term, entries := [] }

def restoreTask (store : LogStore) (task : AppendTask) : LogStore :=
  match task.snapshot with
  | some snapshot => store.applySnapshot snapshot
  | none => store

def write (store : LogStore) (task : AppendTask) : LogStore :=
  (store.restoreTask task).append task.entries

end LogStore

structure LogReady where
  entries : List Entry
  snapshot : Option SnapshotMeta
  committedEntries : List Entry
  deriving DecidableEq, Repr

/-- The log and the term of a node, the tasks that the storage has yet to write,
those it has written without an answer so far, and the entries that are being
applied. -/
structure LogNode where
  log : SnapshotLog
  term : Nat
  asyncStorageWrites : Bool
  queue : List AppendTask
  answers : List AppendTask
  applies : List (List Entry)
  deriving DecidableEq, Repr

inductive LogInput where
  | newTerm (term : Nat)
  | appendEntry (payloads : List Payload)
  | handleAppendEntries (index logTerm commit : Nat) (entries : List Entry)
  | handleHeartbeat (commit : Nat)
  | maybeCommit (index : Nat)
  | restore (snapshot : SnapshotMeta)
  deriving DecidableEq, Repr

inductive LogEvent where
  | step (input : LogInput)
  | ready
  | write
  | appendResp
  | applyResp
  | advance
  deriving DecidableEq, Repr

namespace LogNode

/-- `raft::loadState`, which an empty state skips. -/
def loadState (log : SnapshotLog) (state : HardState) : Option SnapshotLog :=
  if state = .empty then some log
  else if state.commit < log.base.committed ∨ state.commit > log.lastIndex then none
  else some { log with base := { log.base with committed := state.commit } }

/-- `newRaft` with the given `applied` and `maxCommittedSizePerReady`. -/
def new (storage : LogStore) (maxSize applied : Nat) (asyncStorageWrites : Bool) : Option LogNode :=
  (loadState (SnapshotLog.new storage maxSize) storage.hardState).bind fun log =>
    (if applied > 0 then log.appliedTo applied 0 else some log).map fun log =>
      ⟨log, storage.hardState.term, asyncStorageWrites, [], [], []⟩

variable (node : LogNode)

/-- `Bootstrap`: the entries of the first members are committed at once. -/
def bootstrap (peers : List Payload) : Option LogNode :=
  if peers.isEmpty ∨ node.log.base.storage.lastIndex ≠ 0 then some node
  else do
    let log ← node.log.append (Raft.numberEntries 1 1 peers)
    return { node with log := { log with base := { log.base with committed := peers.length } }, term := 1 }

/-- `raft::restore`, without the checks that leave the log alone. -/
def restore (node : LogNode) (snapshot : SnapshotMeta) : Option LogNode :=
  if snapshot.index ≤ node.log.base.committed then some node
  else if node.log.matchTerm snapshot.index snapshot.term then
    (node.log.commitTo snapshot.index).map fun log => { node with log }
  else some { node with log := node.log.restore snapshot }

def step : LogInput → Option LogNode
  | .newTerm term => if node.term < term then some { node with term } else none
  | .appendEntry payloads =>
    (node.log.append (Raft.numberEntries node.term (node.log.lastIndex + 1) payloads)).map
      fun log => { node with log }
  | .handleAppendEntries index logTerm commit entries =>
    if index < node.log.base.committed then some node
    else (node.log.maybeAppend index logTerm commit entries).map fun result =>
      { node with log := result.1 }
  | .handleHeartbeat commit => (node.log.commitTo commit).map fun log => { node with log }
  | .maybeCommit index => (node.log.maybeCommit index node.term).map fun log => { node with log }
  | .restore snapshot => node.restore snapshot

/-- `raft::appliedTo`; leaving a joint configuration is an input of its own. -/
def appliedTo (node : LogNode) (index size : Nat) : Option LogNode :=
  (node.log.appliedTo (max index node.log.base.applied) size).map fun log => { node with log }

def appliedSnap (snapshot : SnapshotMeta) : Option LogNode :=
  { node with log := node.log.stableSnapTo snapshot.index }.appliedTo snapshot.index 0

/-- What raft does with the entries that an answer attests. An answer of an
earlier term attests none; the term 0 is taken for that of a local message. -/
def attest (task : AppendTask) : LogNode :=
  if task.term ≠ 0 ∧ task.term < node.term then node
  else if task.index ≠ 0 then { node with log := node.log.stableTo task.index task.logTerm }
  else node

def stepAppendResp (task : AppendTask) : Option LogNode :=
  match task.snapshot with
  | some snapshot => (node.attest task).appliedSnap snapshot
  | none => some (node.attest task)

variable (sizes : Sizes)

def stepApplyResp (node : LogNode) (entries : List Entry) : Option LogNode :=
  match entries.getLast? with
  | some last => node.appliedTo last.index (entsSize sizes entries)
  | none => some node

/-- `readyWithoutAccept`, as far as it concerns the log. -/
def readyWithoutAccept (node : LogNode) : Option LogReady := do
  let committedEntries ← node.log.nextCommittedEnts sizes !node.asyncStorageWrites
  return ⟨node.log.base.nextUnstableEnts, node.log.nextSnapshot, committedEntries⟩

/-- `needStorageAppendRespMsg` and `newStorageAppendRespMsg`. -/
def appendTask (ready : LogReady) : Option (Option AppendTask) :=
  if node.log.base.unstable.entries.isEmpty then
    if ready.snapshot.isNone then some none
    else some (some ⟨ready.entries, ready.snapshot, node.term, 0, 0⟩)
  else do
    let logTerm ← node.log.lastTerm
    return some ⟨ready.entries, ready.snapshot, node.term, node.log.lastIndex, logTerm⟩

/-- `acceptReady`. Two readies without an `Advance` between them are an error. -/
def acceptReady (node : LogNode) (ready : LogReady) : Option LogNode :=
  if !node.asyncStorageWrites ∧ ¬ (node.queue = [] ∧ node.answers = [] ∧ node.applies = []) then none
  else do
    let task ← node.appendTask ready
    let log := node.log.acceptInProgress
    match ready.committedEntries.getLast? with
    | none => return { node with log, queue := node.queue ++ task.toList }
    | some last =>
      let log ← log.acceptApplying last.index (entsSize sizes ready.committedEntries)
        !node.asyncStorageWrites
      return { node with
        log
        queue := node.queue ++ task.toList
        applies := node.applies ++ [ready.committedEntries] }

def getReady (node : LogNode) : Option (LogNode × LogReady) := do
  let ready ← node.readyWithoutAccept sizes
  let node ← node.acceptReady sizes ready
  return (node, ready)

def writeNext : Option LogNode :=
  match node.queue with
  | [] => none
  | task :: queue => some { node with
      log := { node.log with base := { node.log.base with storage := node.log.base.storage.write task } }
      queue
      answers := node.answers ++ [task] }

def answerAppend : Option LogNode :=
  match node.answers with
  | [] => none
  | task :: answers => { node with answers }.stepAppendResp task

def answerApply (node : LogNode) : Option LogNode :=
  match node.applies with
  | [] => none
  | entries :: applies => { node with applies }.stepApplyResp sizes entries

/-- `Advance`, once everything is written and applied: an accepted ready has
left at most one task and one hand-out. -/
def advance (node : LogNode) : Option LogNode :=
  (if node.answers = [] then some node else node.answerAppend).bind fun node =>
    if node.applies = [] then some node else node.answerApply sizes

/-- The order of the calls is that of the contract: no answers of their own
without `asyncStorageWrites`, no `Advance` with it, and none before the write. -/
def next (node : LogNode) : LogEvent → Option (LogNode × Option LogReady)
  | .step input => (node.step input).map fun node => (node, none)
  | .ready => (node.getReady sizes).map fun result => (result.1, some result.2)
  | .write => node.writeNext.map fun node => (node, none)
  | .appendResp =>
    if node.asyncStorageWrites then node.answerAppend.map fun node => (node, none) else none
  | .applyResp =>
    if node.asyncStorageWrites then (node.answerApply sizes).map fun node => (node, none) else none
  | .advance =>
    if node.asyncStorageWrites ∨ node.queue ≠ [] then none
    else (node.advance sizes).map fun node => (node, none)

end LogNode

end RocksGraph.Eraft
