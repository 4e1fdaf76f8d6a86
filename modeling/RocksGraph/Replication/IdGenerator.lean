import Mathlib.Algebra.GroupWithZero.Nat
import RocksGraph.Foundation.SharedLog
import RocksGraph.Foundation.Table
import RocksGraph.Foundation.Transition
import Mathlib.Data.List.Lex
import Mathlib.Data.Fin.Basic

/-! The id generator of a replicated graph (`graphdb/id_generator.cc`).

Every replica holds a generator. Entity ids come from ranges and token ids from
counters; both are reserved by a record that the leader appends to the raft log
(`ProposeAndApply`) and that every replica applies to its store and then to its
memory (`ApplyRaftWriteBatch`, `ApplyMetaRecord`).

One action of the system is one access of a thread to shared memory, one step
of the apply thread, or one event of the log: a leader change, a commit, a
crash or a restart. A value that the C++ code keeps in a local variable is an
argument of the program point of its thread.

A request is known by its id alone. The ids of a process start from a seed, so
that one may come again after a restart (`seed`); an applied entry resolves the
promise that waits under its id, whoever had proposed it. The model also lets
an entry that was applied before the promise was made resolve it. -/

set_option autoImplicit false

namespace RocksGraph.IdGenerator

open RocksGraph.Foundation

abbrev Bytes := List (Fin 256)

/-- The metadata types `NextVertexId` and `NextEdgeId`. -/
inductive EntityKind where
  | vertex
  | edge
  deriving DecidableEq, Repr

/-- The metadata types `VertexLabel`, `EdgeType` and `Property`. -/
inductive TokenKind where
  | vertexLabel
  | edgeType
  | property
  deriving DecidableEq, Repr

/-- The one record of a batch of kind `ID_GENERATOR`; `other` is any other request. -/
inductive MetaRecord where
  | nextEntityId (kind : EntityKind) (next : Nat)
  | token (kind : TokenKind) (name : Bytes) (id : Nat)
  | other
  deriving DecidableEq, Repr

/-- A raft request; its id names the promise that waits for it. -/
structure Proposal where
  uuid : Nat
  record : MetaRecord
  deriving DecidableEq, Repr

def kIdRangeSize : Nat := 1024

def int64Max : Nat := 2 ^ 63 - 1

/-- `next_vid_`, `vid_range_end_` and `persisted_next_vid_`, or their edge twins. -/
@[ext] structure Counters where
  next : Nat
  rangeEnd : Nat
  persisted : Nat
  deriving DecidableEq, Repr

structure Tokens where
  nameToId : Table Bytes Nat
  idToName : Table Nat Bytes
  nextId : Nat

/-- The part of the `meta_info` column family that the generator reads back. -/
structure MetaInfo where
  nextEntityId : EntityKind → Option Nat
  tokens : TokenKind → Table Bytes Nat

def MetaInfo.empty : MetaInfo := ⟨fun _ => none, fun _ => .empty⟩

/-- The put of a record into `meta_info`. It overwrites what was there. -/
def MetaInfo.write (metaInfo : MetaInfo) : MetaRecord → MetaInfo
  | .nextEntityId kind next =>
    { metaInfo with nextEntityId := Function.update metaInfo.nextEntityId kind (some next) }
  | .token kind name id =>
    { metaInfo with
      tokens := Function.update metaInfo.tokens kind ((metaInfo.tokens kind).put name id) }
  | .other => metaInfo

structure Memory where
  counters : EntityKind → Counters
  tokens : TokenKind → Tokens

/-- `LoadToken`: both maps are assigned. -/
def Tokens.load (tokens : Tokens) (name : Bytes) (id : Nat) : Tokens :=
  { tokens with nameToId := tokens.nameToId.put name id, idToName := tokens.idToName.put id name }

/-- The token case of `ApplyMetaRecord`. It holds the write lock of the maps. -/
def Tokens.apply (tokens : Tokens) (name : Bytes) (id : Nat) : Tokens :=
  { tokens.load name id with nextId := max tokens.nextId ((id + 1) % 2 ^ 32) }

/-- `MetaInfo::Init` with `SetMaxIds`: the tokens of a freshly opened store. -/
def Tokens.opened (stored : Table Bytes Nat) : Tokens :=
  let loaded := stored.entries.foldl (fun tokens entry => Tokens.load tokens entry.1 entry.2)
    (⟨.empty, .empty, 0⟩ : Tokens)
  { loaded with nextId := (stored.entries.foldl (fun top entry => max top entry.2) 0 + 1) % 2 ^ 32 }

/-- `SetNextEntityIds`: all three counters start at the stored value. -/
def Counters.opened (stored : Option Nat) : Counters :=
  let next := stored.getD 1
  ⟨next, next, next⟩

def Memory.opened (metaInfo : MetaInfo) : Memory where
  counters kind := .opened (metaInfo.nextEntityId kind)
  tokens kind := .opened (metaInfo.tokens kind)

def Memory.setCounters (memory : Memory) (kind : EntityKind) (counters : Counters) : Memory :=
  { memory with counters := Function.update memory.counters kind counters }

def Memory.setTokens (memory : Memory) (kind : TokenKind) (tokens : Tokens) : Memory :=
  { memory with tokens := Function.update memory.tokens kind tokens }

/-- Where `ApplyMetaRecord` stands: the three `StoreMax` calls of an entity
record are separate atomic accesses, a token record is one locked section. -/
inductive SyncStage where
  | persisted
  | next
  | rangeEnd
  | tokens
  | done
  deriving DecidableEq, Repr

def MetaRecord.firstStage : MetaRecord → SyncStage
  | .nextEntityId _ _ => .persisted
  | .token _ _ _ => .tokens
  | .other => .done

structure Syncing where
  proposal : Proposal
  stage : SyncStage
  deriving DecidableEq, Repr

/-- One replica. `applied` and `metaInfo` are on disk; the rest is lost in a crash. -/
structure Node where
  running : Bool
  metaInfo : MetaInfo
  applied : Nat
  memory : Memory
  syncing : Option Syncing
  resolved : List Nat
  refillOwner : EntityKind → Option Nat
  createOwner : TokenKind → Option Nat

def Node.fresh : Node where
  running := true
  metaInfo := .empty
  applied := 0
  memory := .opened .empty
  syncing := none
  resolved := []
  refillOwner _ := none
  createOwner _ := none

/-- Program points of `GetNextEntityId`, each before its next shared access.
From `reloadNext` on the thread holds the refill mutex. -/
inductive EntityPc where
  | loadNext
  | loadLimit (candidate : Nat)
  | take (candidate limit : Nat)
  | lockRefill
  | reloadNext
  | reloadLimit (candidate : Nat)
  | loadPersisted
  | propose (start : Nat)
  | waiting (start uuid : Nat)
  | storePersisted (start uuid : Nat)
  | storeNext (start uuid : Nat)
  | storeLimit (start uuid : Nat)
  deriving DecidableEq, Repr

def EntityPc.proposes : EntityPc → Bool
  | .propose _ => true
  | _ => false

structure EntityCall where
  node : Nat
  kind : EntityKind
  pc : EntityPc
  deriving DecidableEq, Repr

/-- Program points of `GetOrCreateLid`, `GetOrCreateTid` and `GetOrCreatePid`.
From `findAgain` on the thread holds the create mutex. -/
inductive TokenPc where
  | find
  | lockCreate
  | findAgain
  | draw
  | propose (id : Nat)
  | waiting (id uuid : Nat)
  | publish (id : Nat)
  deriving DecidableEq, Repr

def TokenPc.proposes : TokenPc → Bool
  | .propose _ => true
  | _ => false

structure TokenCall where
  node : Nat
  kind : TokenKind
  name : Bytes
  pc : TokenPc
  deriving DecidableEq, Repr

/-- The replicas, their log and the calls in progress. `nextUuid` is the id that
the next request takes, `used` records the ids taken so far, and `returned` what
`GetNextVid` and `GetNextEid` have handed out. -/
structure State where
  shared : SharedLog Nat Proposal
  nodes : Nat → Node
  entityCalls : Table Nat EntityCall
  tokenCalls : Table Nat TokenCall
  nextUuid : Nat
  used : List Nat
  returned : List (EntityKind × Nat)

def State.init : State where
  shared := .empty
  nodes _ := .fresh
  entityCalls := .empty
  tokenCalls := .empty
  nextUuid := 0
  used := []
  returned := []

inductive Action where
  | elect (node : Nat) (branch : List Proposal)
  | commit (upto : Nat)
  | seed (uuid : Nat)
  | request
  | strayRequest (onto : Option (List Proposal))
  | beginEntity (thread node : Nat) (kind : EntityKind)
  | stepEntity (thread : Nat)
  | strayEntity (thread : Nat) (onto : Option (List Proposal))
  | failEntity (thread : Nat)
  | beginToken (thread node : Nat) (kind : TokenKind) (name : Bytes)
  | stepToken (thread : Nat)
  | strayToken (thread : Nat) (onto : Option (List Proposal))
  | failToken (thread : Nat)
  | apply (node : Nat)
  | sync (node : Nat)
  | crash (node : Nat)
  | restart (node : Nat)

namespace State

variable (state : State)

variable (id : Nat)

def setNode (node : Node) : State :=
  { state with nodes := Function.update state.nodes id node }

variable (thread : Nat)

def setEntityCall (call : Option EntityCall) : State :=
  { state with entityCalls := state.entityCalls.assign thread call }

def setTokenCall (call : Option TokenCall) : State :=
  { state with tokenCalls := state.tokenCalls.assign thread call }

def setCounters (state : State) (id : Nat) (kind : EntityKind) (counters : Counters) : State :=
  let node := state.nodes id
  state.setNode id { node with memory := node.memory.setCounters kind counters }

def setTokens (state : State) (id : Nat) (kind : TokenKind) (tokens : Tokens) : State :=
  let node := state.nodes id
  state.setNode id { node with memory := node.memory.setTokens kind tokens }

def setRefillOwner (kind : EntityKind) (owner : Option Nat) : State :=
  let node := state.nodes id
  state.setNode id { node with refillOwner := Function.update node.refillOwner kind owner }

def setCreateOwner (kind : TokenKind) (owner : Option Nat) : State :=
  let node := state.nodes id
  state.setNode id { node with createOwner := Function.update node.createOwner kind owner }

def posted (shared : SharedLog Nat Proposal) : State :=
  { state with
    shared := shared
    nextUuid := state.nextUuid + 1
    used := state.nextUuid :: state.used }

def propose (record : MetaRecord) : State :=
  state.posted (state.shared.append ⟨state.nextUuid, record⟩)

/-- The leader of the log does not get the request: a deposed leader appends it
to the log it had, or the promise is settled before the task that was posted for
it runs, and the task drops the request. -/
def stray (record : MetaRecord) : Option (List Proposal) → Option State
  | none => some (state.posted state.shared)
  | some branch => (state.shared.fork branch ⟨state.nextUuid, record⟩).map state.posted

def giveId (kind : EntityKind) (id : Nat) : State :=
  { state with returned := (kind, id) :: state.returned }

variable (call : EntityCall)

def gotoEntity (pc : EntityPc) : State :=
  state.setEntityCall thread (some { call with pc := pc })

def gotoToken (call : TokenCall) (pc : TokenPc) : State :=
  state.setTokenCall thread (some { call with pc := pc })

/-! Each update changes one field. -/

@[simp] theorem setNode_nodes (node : Node) (other : Nat) :
    (state.setNode id node).nodes other = if other = id then node else state.nodes other :=
  Function.update_apply ..

@[simp] theorem setEntityCall_entityCalls (call : Option EntityCall) (other : Nat) :
    (state.setEntityCall thread call).entityCalls.get other =
      if other = thread then call else state.entityCalls.get other :=
  Table.get_assign ..

def throwEntity : State :=
  (state.setRefillOwner call.node call.kind none).setEntityCall thread none

def throwToken (call : TokenCall) : State :=
  (state.setCreateOwner call.node call.kind none).setTokenCall thread none

/-- One access of `GetNextEntityId`. -/
def stepEntity : Option State :=
  let node := state.nodes call.node
  let counters := node.memory.counters call.kind
  match call.pc with
  | .loadNext => some (state.gotoEntity thread call (.loadLimit counters.next))
  | .loadLimit candidate => some (state.gotoEntity thread call (.take candidate counters.rangeEnd))
  | .take candidate limit =>
    if candidate < limit then
      -- `compare_exchange_weak` reloads the candidate when it fails
      if counters.next = candidate then
        some (((state.setCounters call.node call.kind
          { counters with next := candidate + 1 }).giveId call.kind candidate).setEntityCall
            thread none)
      else some (state.gotoEntity thread call (.take counters.next limit))
    else some (state.gotoEntity thread call .lockRefill)
  | .lockRefill =>
    if node.refillOwner call.kind = none then
      some ((state.setRefillOwner call.node call.kind (some thread)).gotoEntity thread call
        .reloadNext)
    else none
  | .reloadNext => some (state.gotoEntity thread call (.reloadLimit counters.next))
  | .reloadLimit candidate =>
    if candidate < counters.rangeEnd then
      some ((state.setRefillOwner call.node call.kind none).gotoEntity thread call .loadNext)
    else some (state.gotoEntity thread call .loadPersisted)
  | .loadPersisted =>
    if int64Max - kIdRangeSize < counters.persisted then some (state.throwEntity thread call)
    else some (state.gotoEntity thread call (.propose counters.persisted))
  | .propose start =>
    if state.shared.leader = some call.node then
      some ((state.propose (.nextEntityId call.kind (start + kIdRangeSize))).gotoEntity thread call
        (.waiting start state.nextUuid))
    else some (state.throwEntity thread call)
  | .waiting start uuid =>
    if uuid ∈ node.resolved then some (state.gotoEntity thread call (.storePersisted start uuid))
    else none
  | .storePersisted start uuid =>
    some ((state.setCounters call.node call.kind
      { counters with persisted := start + kIdRangeSize }).gotoEntity thread call
        (.storeNext start uuid))
  | .storeNext start uuid =>
    some ((state.setCounters call.node call.kind
      { counters with next := start + 1 }).gotoEntity thread call (.storeLimit start uuid))
  | .storeLimit start _ =>
    some ((((state.setCounters call.node call.kind
      { counters with rangeEnd := start + kIdRangeSize }).setRefillOwner call.node call.kind
        none).giveId call.kind start).setEntityCall thread none)

/-- One access of `GetOrCreateLid`, `GetOrCreateTid` or `GetOrCreatePid`. -/
def stepToken (call : TokenCall) : Option State :=
  let node := state.nodes call.node
  let tokens := node.memory.tokens call.kind
  match call.pc with
  | .find =>
    if tokens.nameToId.contains call.name then some (state.setTokenCall thread none)
    else some (state.gotoToken thread call .lockCreate)
  | .lockCreate =>
    if node.createOwner call.kind = none then
      some ((state.setCreateOwner call.node call.kind (some thread)).gotoToken thread call
        .findAgain)
    else none
  | .findAgain =>
    if tokens.nameToId.contains call.name then some (state.throwToken thread call)
    else some (state.gotoToken thread call .draw)
  | .draw =>
    some ((state.setTokens call.node call.kind
      { tokens with nextId := (tokens.nextId + 1) % 2 ^ 32 }).gotoToken thread call
        (.propose tokens.nextId))
  | .propose id =>
    if state.shared.leader = some call.node then
      some ((state.propose (.token call.kind call.name id)).gotoToken thread call
        (.waiting id state.nextUuid))
    else some (state.throwToken thread call)
  | .waiting id uuid =>
    if uuid ∈ node.resolved then some (state.gotoToken thread call (.publish id)) else none
  | .publish id =>
    some (((state.setTokens call.node call.kind (tokens.load call.name id)).setCreateOwner
      call.node call.kind none).setTokenCall thread none)

/-- `ApplyRaftWriteBatch`: the batch and the apply index reach the disk. -/
def applyEntry : Option State :=
  let node := state.nodes id
  if node.running ∧ node.syncing = none ∧ node.applied < state.shared.committed then
    (state.shared.log[node.applied]?).map fun proposal =>
      state.setNode id { node with
        metaInfo := node.metaInfo.write proposal.record
        applied := node.applied + 1
        syncing := some ⟨proposal, proposal.record.firstStage⟩ }
  else none

/-- One access of `SyncIdGeneratorFromRaftBatch`; the last one resolves the promise. -/
def syncStep : Option State :=
  let node := state.nodes id
  match node.syncing with
  | none => none
  | some ⟨⟨uuid, record⟩, stage⟩ =>
    match record, stage with
    | .nextEntityId kind value, .persisted =>
      -- `ApplyMetaRecord` rejects a value below one
      if value < 1 then none
      else
        let counters := node.memory.counters kind
        some (state.setNode id { node with
          memory := node.memory.setCounters kind
            { counters with persisted := max counters.persisted value }
          syncing := some ⟨⟨uuid, record⟩, .next⟩ })
    | .nextEntityId kind value, .next =>
      let counters := node.memory.counters kind
      some (state.setNode id { node with
        memory := node.memory.setCounters kind { counters with next := max counters.next value }
        syncing := some ⟨⟨uuid, record⟩, .rangeEnd⟩ })
    | .nextEntityId kind value, .rangeEnd =>
      let counters := node.memory.counters kind
      some (state.setNode id { node with
        memory := node.memory.setCounters kind
          { counters with rangeEnd := max counters.rangeEnd value }
        syncing := some ⟨⟨uuid, record⟩, .done⟩ })
    | .token kind name tokenId, .tokens =>
      some (state.setNode id { node with
        memory := node.memory.setTokens kind ((node.memory.tokens kind).apply name tokenId)
        syncing := some ⟨⟨uuid, record⟩, .done⟩ })
    | _, .done =>
      some (state.setNode id { node with syncing := none, resolved := uuid :: node.resolved })
    | _, _ => none

def crash : State :=
  let node := state.nodes id
  { state with
    nodes := Function.update state.nodes id { Node.fresh with
      running := false, metaInfo := node.metaInfo, applied := node.applied }
    entityCalls := state.entityCalls.filter fun _ call => call.node != id
    tokenCalls := state.tokenCalls.filter fun _ call => call.node != id }

/-- The store is opened again; the generator is loaded from `meta_info`. -/
def restart : State :=
  let node := state.nodes id
  state.setNode id { Node.fresh with
    metaInfo := node.metaInfo, applied := node.applied, memory := .opened node.metaInfo }

def step : Action → Option State
  | .elect node branch =>
    (state.shared.elect node branch).map fun shared => { state with shared := shared }
  | .commit upto => (state.shared.commit upto).map fun shared => { state with shared := shared }
  | .seed uuid => some { state with nextUuid := uuid }
  | .request => if state.shared.leader.isSome then some (state.propose .other) else none
  | .strayRequest onto => state.stray .other onto
  | .beginEntity thread node kind =>
    if state.entityCalls.get thread = none ∧ (state.nodes node).running then
      some (state.setEntityCall thread (some ⟨node, kind, .loadNext⟩))
    else none
  | .stepEntity thread => (state.entityCalls.get thread).bind (state.stepEntity thread)
  | .strayEntity thread onto =>
    match state.entityCalls.get thread with
    | some ⟨node, kind, .propose start⟩ =>
      -- the log of a deposed leader begins with what the node has applied
      if ∀ branch ∈ onto, state.shared.log.take (state.nodes node).applied <+: branch then
        (state.stray (.nextEntityId kind (start + kIdRangeSize)) onto).map fun next =>
          next.gotoEntity thread ⟨node, kind, .propose start⟩ (.waiting start state.nextUuid)
      else none
    | _ => none
  | .failEntity thread =>
    -- dropped by raft, rejected on the loss of leadership, or timed out
    match state.entityCalls.get thread with
    | some ⟨node, kind, .propose start⟩ => some (state.throwEntity thread ⟨node, kind, .propose start⟩)
    | some ⟨node, kind, .waiting start uuid⟩ =>
      some (state.throwEntity thread ⟨node, kind, .waiting start uuid⟩)
    | _ => none
  | .beginToken thread node kind name =>
    if state.tokenCalls.get thread = none ∧ (state.nodes node).running ∧ name ≠ [] then
      some (state.setTokenCall thread (some ⟨node, kind, name, .find⟩))
    else none
  | .stepToken thread => (state.tokenCalls.get thread).bind (state.stepToken thread)
  | .strayToken thread onto =>
    match state.tokenCalls.get thread with
    | some ⟨node, kind, name, .propose id⟩ =>
      if ∀ branch ∈ onto, state.shared.log.take (state.nodes node).applied <+: branch then
        (state.stray (.token kind name id) onto).map fun next =>
          next.gotoToken thread ⟨node, kind, name, .propose id⟩ (.waiting id state.nextUuid)
      else none
    | _ => none
  | .failToken thread =>
    match state.tokenCalls.get thread with
    | some ⟨node, kind, name, .propose id⟩ =>
      some (state.throwToken thread ⟨node, kind, name, .propose id⟩)
    | some ⟨node, kind, name, .waiting id uuid⟩ =>
      some (state.throwToken thread ⟨node, kind, name, .waiting id uuid⟩)
    | _ => none
  | .apply node => state.applyEntry node
  | .sync node => state.syncStep node
  | .crash node => if (state.nodes node).running then some (state.crash node) else none
  | .restart node => if (state.nodes node).running then none else some (state.restart node)

/-- Whether an action takes the next request id. -/
def takesId : Action → Bool
  | .stepEntity thread => (state.entityCalls.get thread).any (·.pc.proposes)
  | .stepToken thread => (state.tokenCalls.get thread).any (·.pc.proposes)
  | .request | .strayRequest _ | .strayEntity _ _ | .strayToken _ _ => true
  | _ => false

/-- No request takes an id that an earlier one had. -/
def newId (action : Action) : Prop := state.takesId action → state.nextUuid ∉ state.used

instance (action : Action) : Decidable (state.newId action) :=
  inferInstanceAs (Decidable (_ → _))

theorem stray_posted {state next : State} {record : MetaRecord} {onto : Option (List Proposal)}
    (taken : state.stray record onto = some next) : ∃ shared,
      state.shared.Posted shared onto ⟨state.nextUuid, record⟩ ∧ state.posted shared = next := by
  cases onto with
  | none => exact ⟨_, .nowhere .., Option.some.inj taken⟩
  | some branch =>
    obtain ⟨shared, forked, rfl⟩ := Option.map_eq_some_iff.mp taken
    exact ⟨shared, SharedLog.fork_posted forked, rfl⟩

theorem applyEntry_cases {state next : State} {id : Nat} (taken : state.applyEntry id = some next) :
    (state.nodes id).running ∧ (state.nodes id).syncing = none ∧ (state.nodes id).applied < state.shared.committed ∧
      ∃ proposal, state.shared.log[(state.nodes id).applied]? = some proposal ∧
        state.shared.log.take ((state.nodes id).applied + 1) =
          state.shared.log.take (state.nodes id).applied ++ [proposal] ∧
        next = state.setNode id { state.nodes id with
          metaInfo := (state.nodes id).metaInfo.write proposal.record
          applied := (state.nodes id).applied + 1
          syncing := some ⟨proposal, proposal.record.firstStage⟩ } := by
  obtain ⟨ready, taken⟩ := Option.ite_none_right_eq_some.mp taken
  obtain ⟨proposal, read, rfl⟩ := Option.map_eq_some_iff.mp taken
  exact ⟨ready.1, ready.2.1, ready.2.2, proposal, read, by rw [List.take_add_one, read, Option.toList_some], rfl⟩

theorem crash_applied (id other : Nat) :
    ((state.crash id).nodes other).applied = (state.nodes other).applied := by
  by_cases same : other = id <;> simp [crash, same]

theorem crash_entityCalls {state : State} {id thread : Nat} {call : EntityCall}
    (found : (state.crash id).entityCalls.get thread = some call) :
    state.entityCalls.get thread = some call ∧ call.node ≠ id := by
  simp only [crash, Table.get_filter, Option.filter_eq_some_iff, bne_iff_ne] at found
  exact found

end State

/-! ## Frames

Calls for entity ids leave the tokens alone, and calls for tokens the ranges. -/

/-- The next state has the same log, the same calls and the same part of every node. -/
structure Frame {Part Calls : Type} (part : Node → Part) (calls : State → Calls) (state next : State) : Prop where
  shared : next.shared = state.shared
  used : next.used = state.used
  calls : calls next = calls state
  nodes : ∀ id, part (next.nodes id) = part (state.nodes id)

def Node.ranges (node : Node) :=
  (node.running, node.applied, node.syncing, node.resolved, node.metaInfo.nextEntityId, node.memory.counters)

def Node.tokens (node : Node) :=
  (node.running, node.applied, node.syncing, node.resolved, node.metaInfo.tokens, node.memory.tokens)

abbrev RangeFrame := Frame Node.ranges fun state => (state.entityCalls, state.returned)

abbrev TokenFrame := Frame Node.tokens State.tokenCalls

section

variable {Part Calls : Type} {part : Node → Part} {calls : State → Calls}

theorem Frame.setNode {state : State} {id : Nat} {node : Node} (same : part node = part (state.nodes id))
    (kept : calls (state.setNode id node) = calls state) : Frame part calls state (state.setNode id node) := by
  refine ⟨rfl, rfl, kept, fun other => ?_⟩
  rw [State.setNode_nodes]
  split
  next here =>
    rw [here, same]
  · rfl

theorem Frame.trans {first second third : State} (left : Frame part calls first second)
    (right : Frame part calls second third) : Frame part calls first third :=
  ⟨right.shared.trans left.shared, right.used.trans left.used, right.calls.trans left.calls,
    fun id => (right.nodes id).trans (left.nodes id)⟩

end

variable (state : State)

theorem Frame.setTokenCall (thread : Nat) (call : Option TokenCall) :
    RangeFrame state (state.setTokenCall thread call) :=
  ⟨rfl, rfl, rfl, fun _ => rfl⟩

theorem Frame.setEntityCall (thread : Nat) (call : Option EntityCall) :
    TokenFrame state (state.setEntityCall thread call) :=
  ⟨rfl, rfl, rfl, fun _ => rfl⟩

theorem Frame.setCreateOwner (id : Nat) (kind : TokenKind)
    (owner : Option Nat) : RangeFrame state (state.setCreateOwner id kind owner) :=
  .setNode rfl rfl

theorem Frame.setTokens (id : Nat) (kind : TokenKind) (tokens : Tokens) :
    RangeFrame state (state.setTokens id kind tokens) :=
  .setNode rfl rfl

theorem Frame.setRefillOwner (id : Nat) (kind : EntityKind)
    (owner : Option Nat) : TokenFrame state (state.setRefillOwner id kind owner) :=
  .setNode rfl rfl

theorem Frame.setCounters (id : Nat) (kind : EntityKind)
    (counters : Counters) : TokenFrame state (state.setCounters id kind counters) :=
  .setNode rfl rfl

theorem Frame.throwToken (thread : Nat) (call : TokenCall) :
    RangeFrame state (state.throwToken thread call) :=
  .trans (.setCreateOwner ..) (.setTokenCall ..)

theorem Frame.throwEntity (thread : Nat) (call : EntityCall) :
    TokenFrame state (state.throwEntity thread call) :=
  .trans (.setRefillOwner ..) (.setEntityCall ..)

theorem State.stepToken_frame {state next : State} {thread : Nat} {call : TokenCall}
    (taken : state.stepToken thread call = some next) :
    RangeFrame state next ∨ call.pc.proposes ∧
      ∃ id, RangeFrame (state.propose (.token call.kind call.name id)) next := by
  obtain ⟨id, kind, name, pc⟩ := call
  dsimp only [State.stepToken] at taken
  cases pc with
  | find =>
    dsimp only at taken
    split at taken <;> cases taken <;> exact .inl (.setTokenCall ..)
  | lockCreate =>
    dsimp only at taken
    split at taken <;> cases taken
    exact .inl (.trans (.setCreateOwner ..) (.setTokenCall ..))
  | findAgain =>
    dsimp only at taken
    split at taken <;> cases taken
    · exact .inl (.throwToken ..)
    · exact .inl (.setTokenCall ..)
  | draw =>
    cases taken
    exact .inl (.trans (.setTokens ..) (.setTokenCall ..))
  | propose tokenId =>
    dsimp only at taken
    split at taken <;> cases taken
    · exact .inr ⟨rfl, tokenId, .setTokenCall ..⟩
    · exact .inl (.throwToken ..)
  | waiting tokenId uuid =>
    dsimp only at taken
    split at taken <;> cases taken
    exact .inl (.setTokenCall ..)
  | publish tokenId =>
    cases taken
    exact .inl (.trans (.setTokens ..) (.trans (.setCreateOwner ..) (.setTokenCall ..)))

theorem State.stepEntity_frame {state next : State} {thread : Nat} {call : EntityCall}
    (taken : state.stepEntity thread call = some next) : TokenFrame state next ∨ call.pc.proposes ∧
      ∃ last, TokenFrame (state.propose (.nextEntityId call.kind last)) next := by
  obtain ⟨id, kind, pc⟩ := call
  dsimp only [State.stepEntity] at taken
  cases pc with
  | loadNext | loadLimit candidate | reloadNext =>
    cases taken
    exact .inl (.setEntityCall ..)
  | take candidate limit =>
    dsimp only at taken
    split at taken
    · split at taken <;> cases taken
      · exact .inl (.trans (.setCounters ..) ⟨rfl, rfl, rfl, fun _ => rfl⟩)
      · exact .inl (.setEntityCall ..)
    · cases taken
      exact .inl (.setEntityCall ..)
  | lockRefill =>
    dsimp only at taken
    split at taken <;> cases taken
    exact .inl (.trans (.setRefillOwner ..) (.setEntityCall ..))
  | reloadLimit candidate =>
    dsimp only at taken
    split at taken <;> cases taken
    · exact .inl (.trans (.setRefillOwner ..) (.setEntityCall ..))
    · exact .inl (.setEntityCall ..)
  | loadPersisted =>
    dsimp only at taken
    split at taken <;> cases taken
    · exact .inl (.throwEntity ..)
    · exact .inl (.setEntityCall ..)
  | propose start =>
    dsimp only at taken
    split at taken <;> cases taken
    · exact .inr ⟨rfl, _, .setEntityCall ..⟩
    · exact .inl (.throwEntity ..)
  | waiting start uuid =>
    dsimp only at taken
    split at taken <;> cases taken
    exact .inl (.setEntityCall ..)
  | storePersisted start uuid | storeNext start uuid =>
    cases taken
    exact .inl (.trans (.setCounters ..) (.setEntityCall ..))
  | storeLimit start uuid =>
    cases taken
    exact .inl (.trans (.setCounters ..)
      (.trans (.setRefillOwner ..) ⟨rfl, rfl, rfl, fun _ => rfl⟩))

theorem State.strayToken_frame {state next : State} {thread : Nat} {onto : Option (List Proposal)}
    (taken : state.step (.strayToken thread onto) = some next) : ∃ kind name id shared,
      state.shared.Posted shared onto ⟨state.nextUuid, .token kind name id⟩ ∧
        RangeFrame (state.posted shared) next := by
  dsimp only [State.step] at taken
  split at taken
  · obtain ⟨-, taken⟩ := Option.ite_none_right_eq_some.mp taken
    obtain ⟨_, strayed, rfl⟩ := Option.map_eq_some_iff.mp taken
    obtain ⟨shared, landed, rfl⟩ := State.stray_posted strayed
    exact ⟨_, _, _, shared, landed, .setTokenCall ..⟩
  · cases taken

theorem State.strayEntity_frame {state next : State} {thread : Nat} {onto : Option (List Proposal)}
    (taken : state.step (.strayEntity thread onto) = some next) : ∃ kind last shared,
      state.shared.Posted shared onto ⟨state.nextUuid, .nextEntityId kind last⟩ ∧
        TokenFrame (state.posted shared) next := by
  dsimp only [State.step] at taken
  split at taken
  · obtain ⟨-, taken⟩ := Option.ite_none_right_eq_some.mp taken
    obtain ⟨_, strayed, rfl⟩ := Option.map_eq_some_iff.mp taken
    obtain ⟨shared, landed, rfl⟩ := State.stray_posted strayed
    exact ⟨_, _, shared, landed, .setEntityCall ..⟩
  · cases taken

end RocksGraph.IdGenerator
