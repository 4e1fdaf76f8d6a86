import RocksGraph.Raft.Node

/-! One node as its driver runs it (`rawnode.h`, `raft_driver.cc`).

Every event on the raft thread is a step of the state machine followed by one
`CheckReady`: write what became unstable, send the messages, hand the committed
entries to the apply thread and advance. An event that ends the process leaves
what had been written. -/

set_option autoImplicit false

namespace RocksGraph.Eraft

open Foundation

structure RawNode where
  raft : Raft
  prevLead : Nat
  prevState : StateType
  prevHardState : HardState
  stepsOnAdvance : List Message

/-- The parts of `Ready` that the driver uses. An empty hard state is none. -/
structure Ready where
  hardState : HardState
  entries : List Entry
  committedEntries : List Entry
  messages : List Message

namespace RawNode

variable (config : Config)

def new (raft : Raft) : RawNode where
  raft := raft
  prevLead := raft.lead
  prevState := raft.state
  prevHardState := raft.hardState
  stepsOnAdvance := []

variable (node : RawNode)

def hasReady : Bool :=
  node.raft.lead ≠ node.prevLead || node.raft.state ≠ node.prevState ||
  (node.raft.hardState ≠ .empty && node.raft.hardState ≠ node.prevHardState) ||
  !node.raft.msgs.isEmpty || !node.raft.msgsAfterAppend.isEmpty ||
  !node.raft.log.nextUnstableEnts.isEmpty || node.raft.log.hasNextCommittedEnts

def readyWithoutAccept : Option Ready := do
  let committedEntries ← node.raft.log.nextCommittedEnts config.sizes
  return {
    hardState := if node.raft.hardState = node.prevHardState then .empty else node.raft.hardState
    entries := node.raft.log.nextUnstableEnts
    committedEntries
    messages := node.raft.msgs ++ node.raft.msgsAfterAppend.filter fun m => m.toId ≠ config.id }

def newStorageAppendRespMsg : Option Message := do
  let logTerm ← node.raft.log.lastTerm
  return {
    type := .storageAppendResp
    toId := config.id
    fromId := localAppendThread
    term := node.raft.term
    index := node.raft.log.lastIndex
    logTerm }

def newStorageApplyRespMsg (entries : List Entry) : Message where
  type := .storageApplyResp
  toId := config.id
  fromId := localApplyThread
  entries := entries

def appendResponses : Option (List Message) :=
  if node.raft.log.unstable.entries.isEmpty then some []
  else (node.newStorageAppendRespMsg config).map fun m => [m]

def applyResponses (entries : List Entry) : List Message :=
  if entries.isEmpty then [] else [newStorageApplyRespMsg config entries]

def acceptLog (log : RaftLog) (committedEntries : List Entry) : Option RaftLog :=
  match committedEntries.getLast? with
  | none => some log.acceptUnstable
  | some last =>
    log.acceptUnstable.acceptApplying last.index (entsSize config.sizes committedEntries)

def acceptReady (ready : Ready) : Option RawNode :=
  if !node.stepsOnAdvance.isEmpty then none
  else do
    let ownMessages := node.raft.msgsAfterAppend.filter fun m => m.toId = config.id
    let appended ← node.appendResponses config
    let applied := applyResponses config ready.committedEntries
    let log ← acceptLog config node.raft.log ready.committedEntries
    return {
      raft := { node.raft with msgs := [], msgsAfterAppend := [], log }
      prevLead := node.raft.lead
      prevState := node.raft.state
      prevHardState := if ready.hardState = .empty then node.prevHardState else ready.hardState
      stepsOnAdvance := ownMessages ++ appended ++ applied }

def getReady : Option (RawNode × Ready) := do
  let ready ← node.readyWithoutAccept config
  let node ← node.acceptReady config ready
  return (node, ready)

def stepAll (messages : List Message) (raft : Raft) : Option Raft :=
  messages.foldlM (fun raft message => (raft.step config message).map Prod.fst) raft

def advance : Option RawNode := do
  let raft ← stepAll config node.stepsOnAdvance node.raft
  return { node with raft, stepsOnAdvance := [] }

structure Peer where
  id : Nat
  context : Bytes
  deriving DecidableEq, Repr

def bootstrapEntries : Nat → List Peer → List Entry
  | _, [] => []
  | index, peer :: rest =>
    ⟨1, index, .confChange ⟨0, .addNode, peer.id, peer.context⟩⟩ :: bootstrapEntries (index + 1) rest

def bootstrap (peers : List Peer) : Option RawNode :=
  if peers.isEmpty ∨ node.raft.log.storage.lastIndex ≠ 0 then none
  else do
    let raft := node.raft.becomeFollower config 1 0
    let log ← raft.log.append (bootstrapEntries 1 peers)
    let raft := { raft with log := { log with committed := peers.length } }
    let raft ← peers.foldlM (fun raft peer => raft.applyConfChange config ⟨0, .addNode, peer.id, []⟩) raft
    return { node with raft, prevHardState := .empty }

end RawNode

/-- What the node keeps over a restart: its log store, the apply index and the
configuration that its graph store holds, and how many random numbers it drew. -/
structure Disk where
  store : LogStore
  applied : Nat
  confState : Option ConfState
  draws : Nat

/-- An operation for the apply thread: the index of the entry, and the new
configuration when the entry changes it. -/
structure ApplyOperation where
  index : Nat
  confState : Option ConfState

structure Driver where
  node : RawNode
  operations : List ApplyOperation
  applied : Nat
  confState : Option ConfState
  markUnreachable : IdSet

/-- How the transport finds the peer a message goes to. -/
inductive Transport where
  | connected
  | disconnected
  | unknown
  deriving DecidableEq, Repr

namespace Driver

variable (config : Config)

variable (driver : Driver)

def disk : Disk where
  store := driver.node.raft.log.storage
  applied := driver.applied
  confState := driver.confState
  draws := driver.node.raft.draws

def setRaft (raft : Raft) : Driver :=
  { driver with node := { driver.node with raft } }

def write (ready : Ready) : Driver :=
  let raft := driver.node.raft
  let store := raft.log.storage.append ready.entries
  let store := if ready.hardState = .empty then store else store.setHardState ready.hardState
  driver.setRaft { raft with log := { raft.log with storage := store } }

def reportSnapshot (id : Nat) (success : Bool) : Option Driver := do
  let (raft, _) ← driver.node.raft.step config { type := .snapStatus, fromId := id, reject := !success }
  return driver.setRaft raft

def reportUnreachable (id : Nat) : Option Driver := do
  let (raft, _) ← driver.node.raft.step config { type := .unreachable, fromId := id }
  return driver.setRaft raft

/-- What the driver does for one message of a ready; only those that the
transport takes go out. -/
def dispatch (transport : Message → Transport) (driver : Driver) (message : Message) : Option Driver :=
  let failSnapshot (driver : Driver) : Option Driver :=
    if message.type = .snap then driver.reportSnapshot config message.toId false else some driver
  match transport message with
  | .connected =>
    some { driver with markUnreachable := driver.markUnreachable.erase message.toId }
  | .unknown => failSnapshot driver
  | .disconnected => do
    let driver ← failSnapshot driver
    if driver.markUnreachable.contains message.toId then return driver
    let driver ← driver.reportUnreachable config message.toId
    return { driver with markUnreachable := driver.markUnreachable.put message.toId () }

/-- Make the operation for a committed entry; a configuration change takes
effect in the raft here. -/
def prepareApplyOperation (entry : Entry) : Option Driver :=
  match entry.payload with
  | .normal _ => some { driver with operations := driver.operations ++ [⟨entry.index, none⟩] }
  | .confChange change => do
    let raft ← driver.node.raft.applyConfChange config change
    let driver := driver.setRaft raft
    return { driver with
      operations := driver.operations ++ [⟨entry.index, some raft.trk.confState⟩] }

/-- The part of `CheckReady` after the batch is written. -/
def finishReady (transport : Message → Transport) (driver : Driver) (ready : Ready) :
    Option Driver := do
  let driver ← ready.messages.foldlM (dispatch config transport) driver
  let driver ← ready.committedEntries.foldlM (prepareApplyOperation config) driver
  let node ← driver.node.advance config
  return { driver with node }

end Driver

inductive Process where
  | down (disk : Disk)
  | running (driver : Driver)

def Process.disk : Process → Disk
  | .down disk => disk
  | .running driver => driver.disk

/-- What an event leaves: the process, the messages that went out, and the
committed entries that it handed out. -/
structure Outcome where
  process : Process
  sent : List Message
  handedOut : List Entry

def Outcome.aborted (disk : Disk) : Outcome := ⟨.down disk, [], []⟩

namespace Driver

variable (config : Config)

variable (transport : Message → Transport) (driver : Driver)

def checkReady : Outcome :=
  if !driver.node.hasReady then ⟨.running driver, [], []⟩
  else match driver.node.getReady config with
    | none => .aborted driver.disk
    | some (node, ready) =>
      let driver := { driver with node }.write ready
      let sent := ready.messages.filter fun m => transport m = .connected
      match driver.finishReady config transport ready with
      | none => ⟨.down driver.disk, sent, ready.committedEntries⟩
      | some driver => ⟨.running driver, sent, ready.committedEntries⟩

/-- `ValidateInitPeers`, as far as ids go. -/
def validInitPeers (peers : List RawNode.Peer) : Bool :=
  peers.all (fun peer => peer.id ≠ 0) && (peers.map RawNode.Peer.id).Nodup &&
    peers.any fun peer => peer.id = config.id

/-- `Run`: open the stored state, bootstrap an empty store that was given
initial peers, and handle what is ready. -/
def run (disk : Disk) (initPeers : List RawNode.Peer) : Outcome :=
  if disk.applied > 0 ∧ disk.confState.isNone then .aborted disk
  else
    let shouldBootstrap := !disk.store.hasLogs && !initPeers.isEmpty
    if shouldBootstrap ∧ !validInitPeers config initPeers then .aborted disk
    else
      let node := (Raft.new config disk.store (disk.confState.getD .empty) disk.applied disk.draws).bind
        fun raft =>
          if shouldBootstrap then (RawNode.new raft).bootstrap config initPeers
          else some (RawNode.new raft)
      match node with
      | none => .aborted disk
      | some node =>
        checkReady config transport ⟨node, [], disk.applied, disk.confState, .empty⟩

end Driver

/-- What the nodes of a cluster share. -/
structure Settings where
  electionTick : Nat
  heartbeatTick : Nat
  maxPendingProposalBytes : Nat
  sizes : Sizes
  random : Nat → Nat → Nat

def Settings.config (settings : Settings) (id : Nat) : Config where
  id := id
  electionTick := settings.electionTick
  heartbeatTick := settings.heartbeatTick
  maxSizePerMsg := 1024 * 1024
  maxCommittedSizePerReady := 1024 * 1024
  maxUncommittedEntriesSize := settings.maxPendingProposalBytes
  maxInflightMsgs := 256
  maxInflightBytes := 2 ^ 64 - 1
  checkQuorum := true
  preVote := true
  disableProposalForwarding := false
  disableConfChangeValidation := false
  stepDownOnRemoval := true
  sizes := settings.sizes
  random := settings.random id

def Disk.empty : Disk := ⟨.created, 0, none, 0⟩

end RocksGraph.Eraft
