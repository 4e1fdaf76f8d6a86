import Mathlib.Data.Countable.Basic
import Mathlib.Logic.Equiv.List
import RocksGraph.Foundation.Check
import RocksGraph.Foundation.Transition
import RocksGraph.Raft.Configuration
import RocksGraph.Raft.Driver
import RocksGraph.Raft.LogSpec

/-! How a graph with raft is created and its log is seeded (`graph_manager.cc`).

The members come as a protobuf map, and the initial log has one entry for each
of them in the order in which the process walks that map. Protobuf does not say
what the order is, so a process may take any. -/

set_option autoImplicit false

namespace RocksGraph.Eraft

open Foundation List Option RawNode RaftLog

structure RaftNodeInfo where
  nodeId : Nat
  ip : String
  boltPort : Int
  raftPoft : Int
  isLeader : Bool
  isLearner : Bool
  graph : String
  deriving DecidableEq, Repr

structure NodeInfoCodec where
  serialize : RaftNodeInfo → Bytes
  parse : Bytes → Option RaftNodeInfo
  parse_serialize : ∀ info, parse (serialize info) = some info

theorem RaftNodeInfo.countable : Countable RaftNodeInfo := by
  let code (text : String) : List Nat := text.toList.map Char.toNat
  have codeInjective {first second : String} (same : code first = code second) : first = second :=
    String.toList_injective (map_injective_iff.mpr (fun _ _ => Char.toNat_inj.mp) same)
  let fields (info : RaftNodeInfo) :=
    (info.nodeId, code info.ip, info.boltPort, info.raftPoft, info.isLeader, info.isLearner, code info.graph)
  refine Function.Injective.countable (f := fields) ?_
  rintro ⟨⟩ ⟨⟩ same
  simp only [fields, Prod.mk.injEq] at same
  obtain ⟨rfl, ip, rfl, rfl, rfl, rfl, graph⟩ := same
  rw [codeInjective ip, codeInjective graph]

open Classical in
theorem NodeInfoCodec.exists : Nonempty NodeInfoCodec := by
  obtain ⟨number, injective⟩ := @exists_injective_nat RaftNodeInfo RaftNodeInfo.countable
  let serialize (info : RaftNodeInfo) : Bytes := replicate (number info) 0
  have serializeInjective {first second : RaftNodeInfo} (same : serialize first = serialize second) :
      first = second := injective (by simpa [serialize] using congrArg length same)
  refine ⟨serialize, fun bytes => if found : ∃ info, serialize info = bytes then some found.choose else none, ?_⟩
  intro info
  have found : ∃ other, serialize other = serialize info := ⟨info, rfl⟩
  rw [dif_pos found, serializeInjective found.choose_spec]

abbrev RaftNodeInfos := Table Nat RaftNodeInfo

structure Iteration (infos : RaftNodeInfos) where
  order : List (Nat × RaftNodeInfo)
  complete : order.Perm infos.entries

def validateRaftNodeInfo (info : RaftNodeInfo) (graphName : String) : Except String Unit := do
  let id := info.nodeId
  let graph := info.graph
  check (id ≠ 0) "raft node_id should be greater than 0"
  check (!info.ip.isEmpty) s!"raft node [{id}] ip should not be empty"
  check (info.boltPort > 0) s!"raft node [{id}] bolt_port should be greater than 0"
  check (info.raftPoft > 0) s!"raft node [{id}] raft_port should be greater than 0"
  check (!graph.isEmpty) s!"raft node [{id}] graph should not be empty"
  check (graphName.isEmpty ∨ graph = graphName)
    s!"raft node [{id}] graph [{graph}] does not match graph [{graphName}]"

def validateRaftNodeInfos (order : List (Nat × RaftNodeInfo)) (graphName : String) : Except String Unit := do
  check (!order.isEmpty) "raft node infos should not be empty"
  forM order fun (nodeId, info) => do
    let id := info.nodeId
    check (id = nodeId) s!"raft node info key [{nodeId}] does not match node_id [{id}]"
    validateRaftNodeInfo info graphName

def validateGraphNameForCreate (name : String) : Except String Unit := do
  check (!name.isEmpty) "graph name should not be empty"
  check (name ≠ "system") s!"graph name [{name}] is reserved"

structure LocalNodeConfig where
  nodeId : Nat
  graph : String
  ip : String
  boltPort : Int
  raftPoft : Int
  httpPort : Nat

def LocalNodeConfig.check (node : LocalNodeConfig) : Bool :=
  node.nodeId ≠ 0 && !node.graph.isEmpty && !node.ip.isEmpty && 1 ≤ node.boltPort && 1 ≤ node.raftPoft &&
    node.httpPort ≠ 0 && node.httpPort ≤ 65535

structure GraphManager where
  host : String
  boltPort : Nat
  raftPort : Nat
  raftNodeId : Nat
  httpPort : Nat
  graphs : List String

namespace GraphManager

variable (codec : NodeInfoCodec) (settings : Settings) (transport : Message → Transport)

variable (manager : GraphManager) (name : String)

def buildLocalNodeConfig : LocalNodeConfig where
  nodeId := manager.raftNodeId
  graph := name
  ip := manager.host
  boltPort := manager.boltPort
  raftPoft := manager.raftPort
  httpPort := manager.httpPort

def buildInitPeers (order : List (Nat × RaftNodeInfo)) : List RawNode.Peer :=
  order.map fun (nodeId, info) => ⟨nodeId, codec.serialize info⟩

/-- The check of one peer after those with the ids in `seen`. -/
def validateInitPeer (expected : String) (seen : List Nat) (peer : RawNode.Peer) : Except String (List Nat) :=
  let id := peer.id
  match codec.parse peer.context with
  | none => .error s!"failed to parse initial peer context for peer {id}"
  | some info => do
    let found := info.nodeId
    let graph := info.graph
    check (id ≠ 0 ∧ id = found) s!"initial peer {id} has inconsistent node id {found}"
    check (id ∉ seen) s!"duplicate initial peer id {id}"
    check (graph = expected) s!"initial peer {id} belongs to graph [{graph}], expected [{expected}]"
    return seen ++ [id]

def validateInitPeers (node : LocalNodeConfig) (peers : List RawNode.Peer) : Except String Unit := do
  let seen ← peers.foldlM (validateInitPeer codec node.graph) []
  let own := node.nodeId
  check (own ∈ seen) s!"configured raft node id {own} is not in initial peers"

def startGraphRaft (order : List (Nat × RaftNodeInfo)) :
    Except String Outcome := do
  let node := manager.buildLocalNodeConfig name
  let peers := buildInitPeers codec order
  check node.check s!"failed to run raft driver for graph [{name}]: invalid local node config"
  match validateInitPeers codec node peers with
  | .error err => .error s!"failed to run raft driver for graph [{name}]: {err}"
  | .ok () => .ok (Driver.run (settings.config node.nodeId) transport .empty peers)

/-- `CreateGraphWithRaft`: the checks of every caller on the way, and the start. -/
def createGraphWithRaft (infos : RaftNodeInfos)
    (iteration : Iteration infos) : Except String Outcome := do
  validateGraphNameForCreate name
  validateRaftNodeInfos iteration.order name
  validateGraphNameForCreate name
  check (name ∉ manager.graphs) s!"The graph already exists: {name}"
  validateRaftNodeInfos iteration.order name
  let own := manager.raftNodeId
  check (infos.contains own) s!"configured raft node id {own} is not in graph [{name}] members"
  manager.startGraphRaft codec settings transport name iteration.order

end GraphManager

namespace RaftLog

def seeded (maxSize : Nat) (entries : List Entry) : RaftLog :=
  { RaftLog.new .created maxSize with unstable := ⟨entries, 1, 1⟩, committed := entries.length }

variable {maxSize : Nat} {entries : List Entry}

theorem nextCommittedEnts_seeded (sizes : Sizes) (limit : 0 < maxSize) :
    (seeded maxSize entries).nextCommittedEnts sizes = some (limitSize sizes maxSize entries) := by
  cases entries with
  | nil => rfl
  | cons entry rest =>
    have last : (seeded maxSize (entry :: rest)).lastIndex = rest.length + 1 := by
      simp [lastIndex, seeded, Unstable.maybeLastIndex]
    have first : (seeded maxSize (entry :: rest)).firstIndex = 1 := rfl
    have inBounds : (seeded maxSize (entry :: rest)).mustCheckOutOfBounds 1 (rest.length + 2) = some (.ok ()) := by
      rw [mustCheckOutOfBounds, checkOutOfBounds, if_neg (by omega), if_neg (by omega), if_neg (by omega)]
    have sliced : (seeded maxSize (entry :: rest)).slice sizes 1 (rest.length + 2) maxSize =
        some (.ok (limitSize sizes maxSize (entry :: rest))) := by
      have inside : ¬ 1 + (rest.length + 1) < rest.length + 2 := by omega
      rw [slice, inBounds]
      simp [sliceWithin, seeded, Unstable.slice, inside]
    have unpaused : (seeded maxSize (entry :: rest)).applyingEntsPaused = false := rfl
    have positions : (seeded maxSize (entry :: rest)).applying = 0 ∧
        (seeded maxSize (entry :: rest)).committed = rest.length + 1 := ⟨rfl, rfl⟩
    have sizesLeft : (seeded maxSize (entry :: rest)).maxApplyingEntsSize -
        (seeded maxSize (entry :: rest)).applyingEntsSize = maxSize := rfl
    rw [nextCommittedEnts, unpaused, positions.1, positions.2, sizesLeft, if_neg (by simp), if_neg (by omega),
      if_neg (by omega), sliced]
    rfl

theorem lastTerm_seeded (nonempty : entries ≠ []) : ∃ term, (seeded maxSize entries).lastTerm = some term := by
  obtain ⟨entry, rest, rfl⟩ := exists_cons_of_ne_nil nonempty
  have last : (seeded maxSize (entry :: rest)).lastIndex = rest.length + 1 := by
    simp [lastIndex, seeded, Unstable.maybeLastIndex]
  have found : (seeded maxSize (entry :: rest)).unstable.maybeTerm (rest.length + 1) =
      some ((entry :: rest)[rest.length]).term := by
    simp [seeded, Unstable.maybeTerm]
  rw [lastTerm, last, term, found]
  exact ⟨_, rfl⟩

end RaftLog

namespace Raft

variable {config : Config} {raft : Raft}

theorem reset_frame (config : Config) (raft : Raft) (term : Nat) :
    (raft.reset config term).log = raft.log ∧ (raft.reset config term).msgs = raft.msgs ∧
      (raft.reset config term).msgsAfterAppend = raft.msgsAfterAppend := by
  unfold reset
  split <;> exact ⟨rfl, rfl, rfl⟩

theorem step_storage {message : Message} {result : StepResult}
    (isResponse : message.type = .storageAppendResp ∨ message.type = .storageApplyResp)
    (done : raft.step config message = some result) : result.1.log.storage = raft.log.storage := by
  have sameTerm : ∀ {raft : Raft}, raft.stepSameTerm config message = some result →
      result.1.log.storage = raft.log.storage := by
    intro raft done
    unfold stepSameTerm at done
    rcases isResponse with isResponse | isResponse
    · simp only [isResponse] at done
      split at done <;> cases done <;> rfl
    · simp only [isResponse] at done
      split at done
      · cases done
        rfl
      · simp only [appliedTo, RaftLog.appliedTo] at done
        split at done
        · cases done
        · cases done
          rfl
  unfold step at done
  split at done
  · exact sameTerm done
  split at done
  · split at done
    · cases done
      rfl
    · have followed : (raft.followTerm config message).log = raft.log := by
        unfold followTerm becomeFollower
        split
        · rfl
        · split <;> exact (reset_frame config raft _).1
      rw [sameTerm done, followed]
  · split at done
    · have lower : raft.stepLowerTerm config message = some raft := by
        unfold stepLowerTerm
        rcases isResponse with isResponse | isResponse <;> simp [isResponse]
      rw [lower] at done
      cases done
      rfl
    · exact sameTerm done

theorem switchToConfig_of_ne_leader (config : Config) (role : raft.state ≠ .leader) (trk : Tracker) :
    ∃ isLearner, raft.switchToConfig config trk = some { raft with trk, isLearner } := by
  unfold switchToConfig
  rw [if_neg fun both => role both.2, if_pos (.inl role)]
  exact ⟨_, rfl⟩

theorem applyPeers_isSome (config : Config) {peers : List RawNode.Peer} (valid : ∀ peer ∈ peers, peer.id ≠ 0)
    (role : raft.state ≠ .leader) (consistent : raft.trk.Consistent) :
    ∃ trk isLearner, peers.foldlM (fun raft peer => raft.applyConfChange config ⟨0, .addNode, peer.id, []⟩) raft =
      some { raft with trk, isLearner } := by
  induction peers generalizing raft with
  | nil => exact ⟨raft.trk, raft.isLearner, rfl⟩
  | cons peer rest ih =>
    have nonzero := valid peer mem_cons_self
    obtain ⟨isLearner, switched⟩ := switchToConfig_of_ne_leader config role
      (Changer.apply raft.log.lastIndex raft.trk .addNode peer.id)
    rw [foldlM_cons, applyConfChange, Changer.simple_addNode consistent _ nonzero]
    simp only [bind_eq_bind, bind_some, switched]
    apply ih (fun other mem => valid other (mem_cons_of_mem _ mem))
    · exact role
    · change (Changer.apply raft.log.lastIndex raft.trk .addNode peer.id).Consistent
      exact Changer.apply_consistent consistent _ _ _

theorem foldl_freshProgress_consistent (config : Config) (peers : List Nat) {trk : Tracker}
    (consistent : trk.Consistent) :
    (peers.foldl (fun trk id => match trk.progress.get id with
      | some progress => trk.setProgress id (raft.freshProgress config id progress.isLearner)
      | none => trk) trk).Consistent := by
  refine foldlRecOn peers _ consistent fun trk consistent peer _ => ?_
  split
  next progress found =>
    have roles (id : Nat) : (trk.setProgress peer
        (raft.freshProgress config peer progress.isLearner)).role id = trk.role id := by
      by_cases same : id = peer <;>
        simp [Tracker.role, Tracker.setProgress, Progress.role, freshProgress, same, found]
    exact ⟨fun id => by rw [roles]; exact consistent.voters id,
      fun id => by rw [roles]; exact consistent.learners id⟩
  · exact consistent

theorem reset_consistent (consistent : raft.trk.Consistent) (config : Config) (term : Nat) :
    (raft.reset config term).trk.Consistent := by
  refine foldl_freshProgress_consistent config _ ?_
  split <;> exact ⟨consistent.voters, consistent.learners⟩

theorem new_created (config : Config) (draws : Nat) :
    ∃ raft, Raft.new config .created .empty 0 draws = some raft ∧ raft.trk.Consistent ∧
      raft.log = .new .created config.maxCommittedSizePerReady ∧ raft.msgs = [] ∧ raft.msgsAfterAppend = [] := by
  exact ⟨_, rfl, reset_consistent (Tracker.consistent_new _ _) config _, reset_frame config _ _⟩

end Raft

namespace RawNode

variable {config : Config} {node : RawNode}

theorem bootstrapEntries_eq (start : Nat) (peers : List Peer) :
    bootstrapEntries start peers = peers.mapIdx fun k peer =>
      ⟨1, start + k, .confChange ⟨0, .addNode, peer.id, peer.context⟩⟩ := by
  induction peers generalizing start with
  | nil => rfl
  | cons peer rest ih => simp [bootstrapEntries, ih, Nat.add_comm, Nat.add_left_comm]

variable {peers : List Peer}

theorem index_of_mem_bootstrapEntries {start : Nat} {entry : Entry}
    (mem : entry ∈ bootstrapEntries start peers) : entry.index < start + peers.length := by
  rw [bootstrapEntries_eq] at mem
  obtain ⟨k, inside, rfl⟩ := mem_mapIdx.mp mem
  exact Nat.add_lt_add_left inside start

theorem bootstrap_isSome {raft : Raft} (nonempty : peers ≠ [])
    (valid : ∀ peer ∈ peers, peer.id ≠ 0) (consistent : raft.trk.Consistent)
    (isLog : raft.log = .new .created config.maxCommittedSizePerReady) :
    ∃ node, (RawNode.new raft).bootstrap config peers = some node ∧
      node.raft.log = .seeded config.maxCommittedSizePerReady (bootstrapEntries 1 peers) ∧
      node.raft.state = .follower ∧ node.raft.msgs = raft.msgs ∧ node.raft.msgsAfterAppend = raft.msgsAfterAppend ∧
      node.stepsOnAdvance = [] := by
  obtain ⟨sameLog, sameMsgs, sameAfter⟩ := Raft.reset_frame config raft 1
  have sameLog : (raft.becomeFollower config 1 0).log = raft.log := sameLog
  obtain ⟨peer, rest, rfl⟩ := exists_cons_of_ne_nil nonempty
  let log : RaftLog := { raft.log with unstable := ⟨bootstrapEntries 1 (peer :: rest), 1, 1⟩ }
  have appended : raft.log.append (bootstrapEntries 1 (peer :: rest)) = some log := by
    simp only [log, isLog]
    rfl
  let started : Raft :=
    { raft.becomeFollower config 1 0 with log := { log with committed := (peer :: rest).length } }
  have role : started.state ≠ .leader := fun leads => nomatch leads
  obtain ⟨trk, isLearner, applied⟩ :=
    Raft.applyPeers_isSome config valid role (Raft.reset_consistent consistent config 1)
  have seeded : started.log = .seeded config.maxCommittedSizePerReady (bootstrapEntries 1 (peer :: rest)) := by
    simp [started, log, isLog, RaftLog.seeded, bootstrapEntries_eq]
  unfold bootstrap
  rw [if_neg (by simp [RawNode.new, isLog, RaftLog.new, LogStore.created, LogStore.lastIndex])]
  simp only [RawNode.new, sameLog, appended, bind_eq_bind, bind_some]
  rw [applied]
  exact ⟨_, rfl, seeded, rfl, sameMsgs, sameAfter, rfl⟩

/-- What is ready first: the initial entries and no messages. The storage answers when
they are written. -/
theorem getReady_seeded (nonempty : peers ≠ []) (limit : 0 < config.maxCommittedSizePerReady)
    (isLog : node.raft.log = .seeded config.maxCommittedSizePerReady (bootstrapEntries 1 peers))
    (quiet : node.raft.msgs = [] ∧ node.raft.msgsAfterAppend = []) (steps : node.stepsOnAdvance = []) :
    ∃ next ready, node.getReady config = some (next, ready) ∧ next.raft.log.storage = .created ∧
      next.raft.state = node.raft.state ∧ ready.entries = bootstrapEntries 1 peers ∧ ready.messages = [] ∧
      ∀ message ∈ next.stepsOnAdvance, message.type = .storageAppendResp ∨ message.type = .storageApplyResp := by
  let entries := bootstrapEntries 1 peers
  let committed := limitSize config.sizes config.maxCommittedSizePerReady entries
  have handedOut : node.raft.log.nextCommittedEnts config.sizes = some committed := by
    rw [isLog]
    exact nextCommittedEnts_seeded config.sizes limit
  have responses : ∃ message, node.appendResponses config = some [message] ∧ message.type = .storageAppendResp := by
    obtain ⟨peer, rest, rfl⟩ := exists_cons_of_ne_nil nonempty
    have known : ∃ term, node.raft.log.lastTerm = some term := by
      rw [isLog]
      exact lastTerm_seeded (cons_ne_nil _ _)
    obtain ⟨term, isTerm⟩ := known
    have pending : node.raft.log.unstable.entries.isEmpty = false := by
      rw [isLog]
      rfl
    rw [appendResponses, pending, newStorageAppendRespMsg, isTerm]
    exact ⟨_, rfl, rfl⟩
  have accepted : ∃ log, acceptLog config node.raft.log committed = some log ∧ log.storage = .created := by
    unfold acceptLog
    split
    · exact ⟨_, rfl, by rw [isLog]; rfl⟩
    rename_i last isLast
    have mem : last ∈ entries := (limitSize_initial _ _ _).subset (mem_of_getLast? isLast)
    have bounded := index_of_mem_bootstrapEntries mem
    have ahead : ¬ node.raft.log.acceptUnstable.committed < last.index := by
      rw [isLog]
      change ¬ (bootstrapEntries 1 peers).length < last.index
      rw [bootstrapEntries_eq, length_mapIdx]
      omega
    rw [acceptApplying, if_neg ahead]
    exact ⟨_, rfl, by rw [isLog]; rfl⟩
  obtain ⟨message, responded, isAppend⟩ := responses
  obtain ⟨log, isAccepted, stored⟩ := accepted
  unfold getReady readyWithoutAccept acceptReady
  simp only [handedOut, steps, quiet, bind_eq_bind, bind_some, Option.pure_def, responded, isAccepted]
  refine ⟨_, _, rfl, stored, rfl, ?_, rfl, ?_⟩
  · rw [isLog]
    rfl
  · intro other mem
    rcases mem_append.mp mem with same | applied
    · rw [mem_singleton.mp same]
      exact .inl isAppend
    · unfold applyResponses at applied
      split at applied
      · cases applied
      · rw [mem_singleton.mp applied]
        exact .inr rfl

end RawNode

namespace Driver

variable {config : Config} {driver next : Driver}

theorem prepareApplyOperation_frame {entry : Entry} (role : driver.node.raft.state ≠ .leader)
    (done : driver.prepareApplyOperation config entry = some next) :
    next.node.raft.log = driver.node.raft.log ∧ next.node.raft.state = driver.node.raft.state ∧
      next.node.stepsOnAdvance = driver.node.stepsOnAdvance := by
  unfold prepareApplyOperation at done
  split at done
  · cases done
    exact ⟨rfl, rfl, rfl⟩
  · rw [bind_eq_bind, bind_eq_some_iff] at done
    obtain ⟨raft, applied, done⟩ := done
    cases done
    rw [Raft.applyConfChange, bind_eq_bind, bind_eq_some_iff] at applied
    obtain ⟨trk, -, applied⟩ := applied
    obtain ⟨isLearner, switched⟩ := Raft.switchToConfig_of_ne_leader config role trk
    cases switched.symm.trans applied
    exact ⟨rfl, rfl, rfl⟩

theorem prepareAll_frame {entries : List Entry} (role : driver.node.raft.state ≠ .leader)
    (done : entries.foldlM (prepareApplyOperation config) driver = some next) :
    next.node.raft.log = driver.node.raft.log ∧ next.node.stepsOnAdvance = driver.node.stepsOnAdvance := by
  induction entries generalizing driver with
  | nil =>
    cases done
    exact ⟨rfl, rfl⟩
  | cons entry rest ih =>
    rw [foldlM_cons, bind_eq_bind, bind_eq_some_iff] at done
    obtain ⟨middle, prepared, done⟩ := done
    obtain ⟨log, state, steps⟩ := prepareApplyOperation_frame role prepared
    obtain ⟨laterLog, laterSteps⟩ := ih (state ▸ role) done
    exact ⟨laterLog.trans log, laterSteps.trans steps⟩

theorem stepAll_storage {messages : List Message} {raft stepped : Raft}
    (responses : ∀ message ∈ messages, message.type = .storageAppendResp ∨ message.type = .storageApplyResp)
    (done : RawNode.stepAll config messages raft = some stepped) : stepped.log.storage = raft.log.storage := by
  induction messages generalizing raft with
  | nil =>
    cases done
    rfl
  | cons message rest ih =>
    rw [stepAll, foldlM_cons, bind_eq_bind, bind_eq_some_iff] at done
    obtain ⟨middle, mapped, done⟩ := done
    obtain ⟨result, taken, rfl⟩ := map_eq_some_iff.mp mapped
    obtain ⟨isResponse, others⟩ := forall_mem_cons.mp responses
    rw [ih others done, Raft.step_storage isResponse taken]

theorem finishReady_storage {transport : Message → Transport} {ready : Ready} (role : driver.node.raft.state ≠ .leader)
    (quiet : ready.messages = []) (responses : ∀ message ∈ driver.node.stepsOnAdvance,
      message.type = .storageAppendResp ∨ message.type = .storageApplyResp)
    (done : driver.finishReady config transport ready = some next) :
    next.node.raft.log.storage = driver.node.raft.log.storage := by
  simp only [finishReady, quiet, foldlM_nil, Option.pure_def, bind_eq_bind, bind_some,
    bind_eq_some_iff] at done
  obtain ⟨prepared, preparing, node, advanced, done⟩ := done
  cases done
  obtain ⟨log, steps⟩ := prepareAll_frame role preparing
  simp only [RawNode.advance, bind_eq_bind, bind_eq_some_iff] at advanced
  obtain ⟨stepped, taken, done⟩ := advanced
  cases done
  rw [steps] at taken
  exact (stepAll_storage responses taken).trans (congrArg RaftLog.storage log)

theorem run_bootstrap (transport : Message → Transport) {peers : List RawNode.Peer} (nonempty : peers ≠ [])
    (limit : 0 < config.maxCommittedSizePerReady) (valid : validInitPeers config peers = true) :
    (run config transport .empty peers).process.disk.store.entries = RawNode.bootstrapEntries 1 peers := by
  have ids : ∀ peer ∈ peers, peer.id ≠ 0 := by
    unfold validInitPeers at valid
    simp only [Bool.and_eq_true, List.all_eq_true, decide_eq_true_eq] at valid
    exact valid.1.1
  obtain ⟨raft, created, consistent, fresh, noMsgs, noneAfter⟩ := Raft.new_created config Disk.empty.draws
  obtain ⟨node, isNode, isLog, role, msgs, after, steps⟩ :=
    bootstrap_isSome nonempty ids consistent fresh
  obtain ⟨next, ready, taken, stored, state, entries, quiet, responses⟩ :=
    getReady_seeded nonempty limit isLog ⟨msgs.trans noMsgs, after.trans noneAfter⟩ steps
  have isReady : node.hasReady = true := by
    obtain ⟨peer, rest, rfl⟩ := exists_cons_of_ne_nil nonempty
    simp [hasReady, isLog, seeded, nextUnstableEnts, Unstable.nextEntries,
      bootstrapEntries]
  have bootstraps : (!Disk.empty.store.hasLogs && !peers.isEmpty) = true := by
    cases peers with
    | nil => exact absurd rfl nonempty
    | cons => rfl
  have opens : Raft.new config Disk.empty.store (Disk.empty.confState.getD .empty) Disk.empty.applied
      Disk.empty.draws = some raft := created
  unfold run
  rw [if_neg (by simp [Disk.empty]), if_neg (by simp [valid])]
  simp only [opens, bind_some, bootstraps, if_true, isNode]
  let driver : Driver := ⟨next, [], Disk.empty.applied, Disk.empty.confState, .empty⟩
  have written : (driver.write ready).node.raft.log.storage.entries = bootstrapEntries 1 peers := by
    obtain ⟨peer, rest, rfl⟩ := exists_cons_of_ne_nil nonempty
    have appended : (LogStore.created.append (bootstrapEntries 1 (peer :: rest))).entries =
        bootstrapEntries 1 (peer :: rest) := by
      rw [bootstrapEntries, LogStore.append, if_neg]
      · rfl
      · change ¬ 1 + ((bootstrapEntries 2 rest).length + 1) - 1 < 1
        omega
    unfold write
    simp only [driver, stored, entries]
    split <;> exact appended
  unfold checkReady
  simp only [isReady, Bool.not_true, Bool.false_eq_true, if_false, taken]
  split
  · exact written
  rename_i last finished
  have follows : next.raft.state ≠ .leader := by
    rw [state, role]
    simp
  have same := finishReady_storage follows quiet responses finished
  exact (congrArg LogStore.entries same).trans written

end Driver

/-! ## The logs of the members -/

namespace GraphManager

variable {codec : NodeInfoCodec} {settings : Settings} {transport : Message → Transport}
  {manager : GraphManager} {name : String} {infos : RaftNodeInfos}

variable {peers : List RawNode.Peer}

theorem validInitPeers_of_fold {expected : String} {seen last : List Nat}
    (distinct : seen.Nodup) (done : peers.foldlM (validateInitPeer codec expected) seen = .ok last) :
    last = seen ++ peers.map RawNode.Peer.id ∧ last.Nodup ∧ ∀ peer ∈ peers, peer.id ≠ 0 := by
  induction peers generalizing seen with
  | nil =>
    cases done
    exact ⟨by simp, distinct, fun _ mem => nomatch mem⟩
  | cons peer rest ih =>
    rw [foldlM_cons, bind_eq_ok] at done
    obtain ⟨next, checked, done⟩ := done
    unfold validateInitPeer at checked
    split at checked
    · cases checked
    simp only [bind_eq_ok, check_eq_ok, exists_const] at checked
    obtain ⟨⟨nonzero, -⟩, unseen, -, checked⟩ := checked
    cases checked
    obtain ⟨rfl, nodup, valid⟩ := ih
      (pairwise_snoc.mpr ⟨distinct, fun id mem => ne_of_mem_of_not_mem mem unseen⟩) done
    refine ⟨by simp, nodup, fun other mem => ?_⟩
    rcases mem_cons.mp mem with rfl | mem
    · exact nonzero
    · exact valid other mem

theorem validInitPeers_of_validateInitPeers {node : LocalNodeConfig}
    (valid : validateInitPeers codec node peers = .ok ()) :
    Driver.validInitPeers (settings.config node.nodeId) peers = true := by
  simp only [validateInitPeers, bind_eq_ok, check_eq_ok] at valid
  obtain ⟨seen, folded, own⟩ := valid
  obtain ⟨rfl, nodup, ids⟩ := validInitPeers_of_fold nodup_nil folded
  obtain ⟨peer, mem, same⟩ := List.mem_map.mp own
  unfold Driver.validInitPeers
  simp only [Bool.and_eq_true, List.all_eq_true, List.any_eq_true, decide_eq_true_eq]
  exact ⟨⟨ids, nodup⟩, peer, mem, same⟩

theorem createGraphWithRaft_log {iteration : Iteration infos} {outcome : Outcome}
    (created : manager.createGraphWithRaft codec settings transport name infos iteration = .ok outcome) :
    outcome.process.disk.store.entries = RawNode.bootstrapEntries 1 (buildInitPeers codec iteration.order) := by
  simp only [createGraphWithRaft, bind_eq_ok, check_eq_ok, exists_const] at created
  obtain ⟨-, -, _, infosValid, -, -, -, -, -, -, started⟩ := created
  simp only [validateRaftNodeInfos] at infosValid
  simp only [startGraphRaft, bind_eq_ok, check_eq_ok, exists_const] at started
  obtain ⟨-, started⟩ := started
  split at started
  · cases started
  rename_i valid
  cases started
  refine Driver.run_bootstrap transport ?_ (Nat.succ_pos _) (validInitPeers_of_validateInitPeers valid)
  cases order : iteration.order with
  | nil => simp [order] at infosValid
  | cons => simp [buildInitPeers]

end GraphManager

def LogMatching (first second : List Entry) : Prop :=
  ∀ (k : Nat) (left right : Entry), first[k]? = some left → second[k]? = some right →
    left.term = right.term → first.take (k + 1) = second.take (k + 1)

/-- What the members of a graph should find in their initial logs: the same
entries, of term 1, one for every member. -/
structure SameInitialLog (codec : NodeInfoCodec) (infos : RaftNodeInfos) (first second : List Entry) : Prop where
  same : first = second
  matching : LogMatching first second
  length : first.length = infos.entries.length
  entry : ∀ (k : Nat) (entry : Entry), first[k]? = some entry → ∃ info, infos.get info.nodeId = some info ∧
    entry = ⟨1, k + 1, .confChange ⟨0, .addNode, info.nodeId, codec.serialize info⟩⟩

namespace GraphManager

variable {codec : NodeInfoCodec} {settings : Settings} {transport : Message → Transport}
  {manager : GraphManager} {name : String} {infos : RaftNodeInfos}

variable {iteration : Iteration infos}

theorem createGraphWithRaft_keys {outcome : Outcome}
    (created : manager.createGraphWithRaft codec settings transport name infos iteration = .ok outcome)
    {entry : Nat × RaftNodeInfo} (mem : entry ∈ iteration.order) :
    entry.2.nodeId = entry.1 ∧ infos.get entry.1 = some entry.2 := by
  simp only [createGraphWithRaft, bind_eq_ok] at created
  obtain ⟨-, -, _, infosValid, -⟩ := created
  simp only [validateRaftNodeInfos, bind_eq_ok, check_eq_ok, exists_const, forM_eq_ok] at infosValid
  exact ⟨(infosValid.2 entry mem).1, infos.get_eq_some_iff.mpr (iteration.complete.subset mem)⟩

theorem validateInitPeers_of_validated {order : List (Nat × RaftNodeInfo)} {seen : List Nat}
    (named : name.isEmpty = false)
    (valid : ∀ entry ∈ order, entry.2.nodeId = entry.1 ∧ validateRaftNodeInfo entry.2 name = .ok ())
    (distinct : (seen ++ order.map Prod.fst).Nodup) :
    (buildInitPeers codec order).foldlM (validateInitPeer codec name) seen =
      .ok (seen ++ order.map Prod.fst) := by
  induction order generalizing seen with
  | nil =>
    rw [map_nil, append_nil]
    rfl
  | cons entry rest ih =>
    obtain ⟨key, info⟩ := entry
    obtain ⟨same, infoValid⟩ := valid (key, info) mem_cons_self
    obtain rfl : info.nodeId = key := same
    simp only [validateRaftNodeInfo, bind_eq_ok, check_eq_ok, exists_and_left, named] at infoValid
    obtain ⟨nonzero, -, -, -, -, graph⟩ := infoValid
    have graph : info.graph = name := by simpa using graph
    rw [map_cons, append_cons] at distinct
    have unseen : info.nodeId ∉ seen := by
      have := (nodup_append.mp (nodup_append.mp distinct).1).2.2
      exact fun mem => this _ mem _ (mem_singleton_self _) rfl
    have checked : validateInitPeer codec name seen ⟨info.nodeId, codec.serialize info⟩ =
        .ok (seen ++ [info.nodeId]) := by
      simp only [validateInitPeer, codec.parse_serialize, bind_eq_ok, check_eq_ok, exists_const]
      exact ⟨⟨nonzero, trivial⟩, unseen, graph, rfl⟩
    rw [buildInitPeers, map_cons, foldlM_cons, checked]
    change (buildInitPeers codec rest).foldlM (validateInitPeer codec name) (seen ++ [info.nodeId]) = _
    rw [ih (fun other mem => valid other (mem_cons_of_mem _ mem)) distinct]
    simp

theorem createGraphWithRaft_ok (nameValid : validateGraphNameForCreate name = .ok ())
    (infosValid : validateRaftNodeInfos iteration.order name = .ok ()) (fresh : name ∉ manager.graphs)
    (isMember : infos.contains manager.raftNodeId = true)
    (nodeValid : (manager.buildLocalNodeConfig name).check = true) :
    ∃ outcome, manager.createGraphWithRaft codec settings transport name infos iteration = .ok outcome := by
  have peersValid : validateInitPeers codec (manager.buildLocalNodeConfig name)
      (buildInitPeers codec iteration.order) = .ok () := by
    have named : name.isEmpty = false := by
      simp only [validateGraphNameForCreate, bind_eq_ok, check_eq_ok, exists_and_left] at nameValid
      simpa using nameValid.1
    have valid := infosValid
    simp only [validateRaftNodeInfos, bind_eq_ok, check_eq_ok, exists_const, forM_eq_ok] at valid
    have keys : (iteration.order.map Prod.fst).Perm (infos.entries.map Prod.fst) := iteration.complete.map _
    have distinct : (iteration.order.map Prod.fst).Nodup := by
      rw [keys.nodup_iff, nodup_iff_pairwise_ne, pairwise_map]
      exact infos.sorted.imp fun less => ne_of_lt less
    have folded : (buildInitPeers codec iteration.order).foldlM (validateInitPeer codec name) [] = _ :=
      validateInitPeers_of_validated named valid.2 distinct
    simp only [validateInitPeers, bind_eq_ok, check_eq_ok]
    refine ⟨_, folded, ?_⟩
    obtain ⟨info, found⟩ := (infos.contains_iff manager.raftNodeId).mp isMember
    rw [nil_append, keys.mem_iff]
    exact List.mem_map.mpr ⟨_, infos.get_eq_some_iff.mp found, rfl⟩
  refine ⟨Driver.run (settings.config manager.raftNodeId) transport .empty (buildInitPeers codec iteration.order), ?_⟩
  simp only [createGraphWithRaft, startGraphRaft, bind_eq_ok, check_eq_ok, exists_const]
  refine ⟨(), nameValid, (), infosValid, (), nameValid, fresh, (), infosValid, isMember, nodeValid, ?_⟩
  rw [peersValid]
  rfl

variable {first second : GraphManager} {firstSettings secondSettings : Settings}
  {firstTransport secondTransport : Message → Transport} {firstIteration secondIteration : Iteration infos}
  {firstOutcome secondOutcome : Outcome}

theorem initial_logs_eq_iff
    (firstCreated : first.createGraphWithRaft codec firstSettings firstTransport name infos firstIteration =
      .ok firstOutcome)
    (secondCreated : second.createGraphWithRaft codec secondSettings secondTransport name infos secondIteration =
      .ok secondOutcome) :
    firstOutcome.process.disk.store.entries = secondOutcome.process.disk.store.entries ↔
      firstIteration.order = secondIteration.order := by
  rw [createGraphWithRaft_log firstCreated, createGraphWithRaft_log secondCreated]
  refine ⟨fun same => ext_getElem? fun k => ?_, fun same => by rw [same]⟩
  have sameAt := congrArg (fun log => log[k]?) same
  simp only [bootstrapEntries_eq, getElem?_mapIdx, buildInitPeers, getElem?_map, Option.map_map] at sameAt
  cases atFirst : firstIteration.order[k]? with
  | none =>
    rw [atFirst, map_none, eq_comm, map_eq_none_iff] at sameAt
    exact sameAt.symm
  | some left =>
    rw [atFirst, map_some, eq_comm, map_eq_some_iff] at sameAt
    obtain ⟨right, atSecond, sameEntry⟩ := sameAt
    -- The entry names the id, and a map has one info for an id.
    simp only [Function.comp, Entry.mk.injEq, Payload.confChange.injEq, ConfChange.mk.injEq, true_and] at sameEntry
    have sameId := sameEntry.1
    have leftInfo := (createGraphWithRaft_keys firstCreated (mem_of_getElem? atFirst)).2
    have rightInfo := (createGraphWithRaft_keys secondCreated (mem_of_getElem? atSecond)).2
    rw [sameId, leftInfo] at rightInfo
    rw [atSecond]
    exact congrArg some (Prod.ext sameId.symm (Option.some.inj rightInfo))

/-- Members that walk the map in one order start with one log. -/
theorem sameInitialLog_of_sameOrder
    (firstCreated : first.createGraphWithRaft codec firstSettings firstTransport name infos firstIteration =
      .ok firstOutcome)
    (secondCreated : second.createGraphWithRaft codec secondSettings secondTransport name infos secondIteration =
      .ok secondOutcome) (sameOrder : firstIteration.order = secondIteration.order) :
    SameInitialLog codec infos firstOutcome.process.disk.store.entries
      secondOutcome.process.disk.store.entries := by
  have same := (initial_logs_eq_iff firstCreated secondCreated).mpr sameOrder
  have log := createGraphWithRaft_log firstCreated
  refine ⟨same, same ▸ fun _ _ _ _ _ _ => rfl, ?_, fun k entry found => ?_⟩
  · rw [log, bootstrapEntries_eq, length_mapIdx, buildInitPeers, length_map, firstIteration.complete.length_eq]
  rw [log, bootstrapEntries_eq, getElem?_mapIdx, buildInitPeers, getElem?_map, Option.map_map] at found
  obtain ⟨mem, isMember, rfl⟩ := map_eq_some_iff.mp found
  obtain ⟨key, stored⟩ := createGraphWithRaft_keys firstCreated (mem_of_getElem? isMember)
  refine ⟨mem.2, by rw [key, stored], ?_⟩
  simp [key, add_comm]

/-! ### Two members -/

def twoSettings : Settings where
  electionTick := 10
  heartbeatTick := 1
  maxPendingProposalBytes := 2 ^ 26
  sizes := ⟨fun _ => 0, fun _ => 0⟩
  random := fun _ _ => 0

def twoInfo (id : Nat) : RaftNodeInfo := ⟨id, s!"10.0.0.{id}", 7687, 7688, false, false, "social"⟩

def twoInfos : RaftNodeInfos := ⟨[(1, twoInfo 1), (2, twoInfo 2)], by decide⟩

def twoManager (id : Nat) : GraphManager := ⟨s!"10.0.0.{id}", 7687, 7688, id, 7689, []⟩

def upward : Iteration twoInfos := ⟨[(1, twoInfo 1), (2, twoInfo 2)], .refl _⟩

def downward : Iteration twoInfos := ⟨[(2, twoInfo 2), (1, twoInfo 1)], .swap _ _ _⟩

theorem twoManager_created (codec : NodeInfoCodec) (iteration : Iteration twoInfos)
    (valid : validateRaftNodeInfos iteration.order "social" = .ok ()) {id : Nat} (isMember : id = 1 ∨ id = 2) :
    ∃ outcome, (twoManager id).createGraphWithRaft codec twoSettings (fun _ => .unknown) "social" twoInfos
      iteration = .ok outcome := by
  rcases isMember with rfl | rfl
  · exact createGraphWithRaft_ok (by decide) valid (by decide) (by decide) (by decide)
  · exact createGraphWithRaft_ok (by decide) valid (by decide) (by decide) (by decide)

/-- Member 1 walks the map upward and member 2 downward: their first entries
have one index and one term and name different nodes. -/
theorem initial_logs_differ :
    ∃ (codec : NodeInfoCodec) (first second : Outcome),
      (twoManager 1).createGraphWithRaft codec twoSettings (fun _ => .unknown) "social" twoInfos upward =
        .ok first ∧
      (twoManager 2).createGraphWithRaft codec twoSettings (fun _ => .unknown) "social" twoInfos downward =
        .ok second ∧
      ¬ LogMatching first.process.disk.store.entries second.process.disk.store.entries := by
  obtain ⟨codec⟩ := NodeInfoCodec.exists
  obtain ⟨first, firstCreated⟩ := twoManager_created codec upward (by decide) (.inl rfl)
  obtain ⟨second, secondCreated⟩ := twoManager_created codec downward (by decide) (.inr rfl)
  refine ⟨codec, first, second, firstCreated, secondCreated, fun matching => ?_⟩
  rw [createGraphWithRaft_log firstCreated, createGraphWithRaft_log secondCreated] at matching
  have sameHead := matching 0 _ _ rfl rfl rfl
  simp [upward, downward, buildInitPeers, bootstrapEntries] at sameHead

theorem sameInitialLog_upward :
    ∃ (codec : NodeInfoCodec) (first second : Outcome),
      (twoManager 1).createGraphWithRaft codec twoSettings (fun _ => .unknown) "social" twoInfos upward =
        .ok first ∧
      (twoManager 2).createGraphWithRaft codec twoSettings (fun _ => .unknown) "social" twoInfos upward =
        .ok second ∧
      SameInitialLog codec twoInfos first.process.disk.store.entries second.process.disk.store.entries := by
  obtain ⟨codec⟩ := NodeInfoCodec.exists
  obtain ⟨first, firstCreated⟩ := twoManager_created codec upward (by decide) (.inl rfl)
  obtain ⟨second, secondCreated⟩ := twoManager_created codec upward (by decide) (.inr rfl)
  exact ⟨codec, first, second, firstCreated, secondCreated,
    sameInitialLog_of_sameOrder firstCreated secondCreated rfl⟩

end GraphManager

end RocksGraph.Eraft
