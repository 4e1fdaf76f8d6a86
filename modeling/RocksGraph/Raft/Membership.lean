import RocksGraph.Raft.Bootstrap

/-! The two records of the members that a graph keeps: the raft configuration
and the infos of the nodes (`graph_manager.cc`, `raft_driver.cc`, `graph_db_raft.cc`).

A configuration change is proposed on one node, and every node that applies it
updates the tracker of its raft and its node infos, and stores both with the
apply index. A change carries the node info that its context holds. -/

set_option autoImplicit false

namespace RocksGraph.Eraft

open Foundation List Option Changer

structure MemberChange where
  type : ConfChangeType
  nodeId : Nat
  info : RaftNodeInfo
  deriving DecidableEq

/-- A committed entry; the data of the others does not matter here. -/
inductive MemberEntry where
  | normal
  | confChange (change : MemberChange)
  deriving DecidableEq

/-- What a node knows when it is asked for a change: its node infos, the leader,
and for a promotion the progress of the learner. -/
structure RaftView where
  nodeInfos : RaftNodeInfos
  nodeId : Nat
  lead : Nat
  matched : Nat → Option Nat
  commit : Nat

namespace RaftView

variable (view : RaftView)

variable (id : Nat)

/-- `GetNodeInfosWithLeader` for one node. -/
def find : Option RaftNodeInfo :=
  (view.nodeInfos.get id).map fun info => if id = view.lead then { info with isLeader := true } else info

def voterCount : Nat := view.nodeInfos.entries.countP fun entry => !entry.2.isLearner

def checkEndpoint (info : RaftNodeInfo) (others : Nat → Bool) : Except String Unit :=
  forM (view.nodeInfos.entries.filter fun entry => others entry.1) fun (existingId, existing) =>
    let ip := info.ip
    let port := info.raftPoft
    check (existing.ip ≠ ip ∨ existing.raftPoft ≠ port)
      s!"raft endpoint [{ip}:{port}] is already used by node [{existingId}]"

def require : Except String RaftNodeInfo :=
  match view.find id with
  | none => .error s!"raft node [{id}] does not exist"
  | some info => .ok info

def addManagedRaftNode (name : String) (info : RaftNodeInfo) (learner : Bool) :
    Except String MemberChange := do
  validateRaftNodeInfo info name
  let id := info.nodeId
  check (!view.nodeInfos.contains id) s!"raft node [{id}] already exists"
  view.checkEndpoint info fun _ => true
  return ⟨if learner then .addLearnerNode else .addNode, id, info⟩

def promoteManagedRaftLearnerNode : Except String MemberChange := do
  let info ← view.require id
  check info.isLearner s!"raft node [{id}] is not a learner"
  check (view.nodeId = view.lead) "raft configuration change must be executed on the leader"
  match view.matched id with
  | none => .error s!"raft learner [{id}] has no replication progress"
  | some matched => do
    let commit := view.commit
    check (matched ≥ commit)
      s!"raft learner [{id}] has not caught up: match index {matched}, commit index {commit}"
    return ⟨.addNode, id, { info with isLearner := false, isLeader := false }⟩

def removeManagedRaftNode : Except String MemberChange := do
  let info ← view.require id
  check (!info.isLeader) "cannot remove the current leader; transfer leadership first"
  check (info.isLearner ∨ view.voterCount > 1) "cannot remove the last raft voter"
  return ⟨.removeNode, id, info⟩

def demoteManagedRaftNode : Except String MemberChange := do
  let info ← view.require id
  check (!info.isLearner) s!"raft node [{id}] is already a learner"
  check (!info.isLeader) "cannot demote the current leader; transfer leadership first"
  check (view.voterCount > 1) "cannot demote the last raft voter"
  return ⟨.addLearnerNode, id, { info with isLearner := true, isLeader := false }⟩

def updateManagedRaftNode (name : String) (info : RaftNodeInfo) : Except String MemberChange := do
  validateRaftNodeInfo info name
  let id := info.nodeId
  let existing ← view.require id
  check (!existing.isLeader) "cannot update the current leader node"
  view.checkEndpoint info (· ≠ id)
  return ⟨.updateNode, id, { info with isLearner := existing.isLearner, isLeader := false }⟩

end RaftView

inductive MemberRequest where
  | add (info : RaftNodeInfo) (learner : Bool)
  | promote (id : Nat)
  | remove (id : Nat)
  | demote (id : Nat)
  | update (info : RaftNodeInfo)
  deriving DecidableEq

def MemberRequest.change (name : String) (view : RaftView) : MemberRequest → Except String MemberChange
  | .add info learner => view.addManagedRaftNode name info learner
  | .promote id => view.promoteManagedRaftLearnerNode id
  | .remove id => view.removeManagedRaftNode id
  | .demote id => view.demoteManagedRaftNode id
  | .update info => view.updateManagedRaftNode name info

/-- The node infos with a node added, unless it is there in the same role. -/
def RaftNodeInfos.add (infos : RaftNodeInfos) (info : RaftNodeInfo) (learner : Bool) : RaftNodeInfos :=
  let info := { info with isLearner := learner, isLeader := false }
  match infos.get info.nodeId with
  | none => infos.put info.nodeId info
  | some existing => if existing.isLearner ≠ learner then infos.put info.nodeId info else infos

/-- What `PrepareApplyOperations` does to the node infos for a change. -/
def RaftNodeInfos.apply (infos : RaftNodeInfos) (type : ConfChangeType) (info : RaftNodeInfo) : RaftNodeInfos :=
  match type with
  | .addNode => infos.add info false
  | .addLearnerNode => infos.add info true
  | .removeNode => if infos.contains info.nodeId then infos.erase info.nodeId else infos
  | .updateNode =>
    match infos.get info.nodeId with
    | none => infos
    | some existing =>
      infos.put info.nodeId { info with isLearner := existing.isLearner, isLeader := false }

structure MemberStore where
  applied : Nat
  confState : Option ConfState
  nodeInfos : Option RaftNodeInfos

structure MemberOperation where
  index : Nat
  records : Option (ConfState × RaftNodeInfos)

structure MemberDriver where
  trk : Tracker
  nodeInfos : RaftNodeInfos
  handedOut : Nat
  operations : List MemberOperation

/-- One node of the graph. `seeded` says that the configuration it works with
began as the one of `Bootstrap`, which names all initial peers at once. -/
structure Member where
  created : Bool
  store : MemberStore
  driver : Option MemberDriver
  seeded : Bool

structure MemberCluster where
  proposed : List MemberChange
  log : List MemberEntry
  members : Nat → Member

def MemberStore.empty : MemberStore := ⟨0, none, none⟩

namespace MemberDriver

/-- `PrepareApplyOperations` for one entry; `lastIndex` is the end of the log of the node. -/
def prepareApplyOperation (driver : MemberDriver) (lastIndex : Nat) (entry : MemberEntry) : Option MemberDriver :=
  let index := driver.handedOut + 1
  match entry with
  | .normal => some { driver with handedOut := index, operations := driver.operations ++ [⟨index, none⟩] }
  | .confChange change => do
    let trk ← Changer.simple lastIndex driver.trk change.type change.nodeId
    let nodeInfos := driver.nodeInfos.apply change.type change.info
    return {
      trk
      nodeInfos
      handedOut := index
      operations := driver.operations ++ [⟨index, some (trk.confState, nodeInfos)⟩] }

end MemberDriver

/-- `ApplyRaftConfChange`, or the apply index alone for another entry. -/
def MemberStore.apply (store : MemberStore) (operation : MemberOperation) : MemberStore :=
  match operation.records with
  | none => { store with applied := operation.index }
  | some (confState, nodeInfos) => ⟨operation.index, some confState, some nodeInfos⟩

/-- The peers that a graph is created with, as `ValidateRaftNodeInfos` leaves them. -/
structure InitialPeers where
  infos : List RaftNodeInfo
  nonzero : ∀ info ∈ infos, info.nodeId ≠ 0
  distinct : (infos.map RaftNodeInfo.nodeId).Nodup

def InitialPeers.count (peers : InitialPeers) : Nat := peers.infos.length

def Tracker.initial : Tracker := .new 256 (2 ^ 64 - 1)

/-- `Bootstrap`: all peers become voters before any entry is handed out. -/
def seedTracker (peers : InitialPeers) : Option Tracker :=
  peers.infos.foldlM (fun trk peer => Changer.simple peers.count trk .addNode peer.nodeId) .initial

def InitialPeers.entry (info : RaftNodeInfo) : MemberEntry := .confChange ⟨.addNode, info.nodeId, info⟩

def seedLog (peers : InitialPeers) : List MemberEntry := peers.infos.map InitialPeers.entry

/-- `Run` from what is stored; entries after the apply index are handed out again. -/
def MemberStore.start (store : MemberStore) (lastIndex : Nat) : Option MemberDriver :=
  if store.applied > 0 ∧ (store.confState.isNone ∨ ((store.nodeInfos.getD .empty).entries.isEmpty)) then none
  else do
    let confState := store.confState.getD .empty
    let trk ← Changer.restore lastIndex .initial confState
    if trk.confState ≠ confState then none
    else some ⟨trk, store.nodeInfos.getD .empty, store.applied, []⟩

inductive MemberAction where
  | create (id : Nat) (bootstrap : Bool)
  | propose (id : Nat) (request : MemberRequest) (lead : Nat) (matched : Option Nat) (commit : Nat)
  | commit (entry : MemberEntry)
  | prepare (id : Nat) (lastIndex : Nat)
  | applyNext (id : Nat)
  | crash (id : Nat)
  | start (id : Nat) (lastIndex : Nat)

namespace MemberCluster

def init (peers : InitialPeers) : MemberCluster where
  proposed := []
  log := seedLog peers
  members := fun _ => ⟨false, .empty, none, false⟩

def setMember (cluster : MemberCluster) (id : Nat) (member : Member) : MemberCluster :=
  { cluster with members := Function.update cluster.members id member }

def step (name : String) (peers : InitialPeers) (cluster : MemberCluster) : MemberAction → Option MemberCluster
  | .create id bootstrap =>
    if (cluster.members id).created then none
    else if bootstrap then
      (seedTracker peers).map fun trk =>
        cluster.setMember id ⟨true, .empty, some ⟨trk, .empty, 0, []⟩, true⟩
    else some (cluster.setMember id ⟨true, .empty, some ⟨.initial, .empty, 0, []⟩, false⟩)
  | .propose id request lead matched commit => do
    let driver ← (cluster.members id).driver
    match request.change name ⟨driver.nodeInfos, id, lead, fun _ => matched, commit⟩ with
    | .error _ => none
    | .ok change => some { cluster with proposed := cluster.proposed ++ [change] }
  | .commit entry =>
    match entry with
    | .normal => some { cluster with log := cluster.log ++ [.normal] }
    | .confChange change =>
      if change ∈ cluster.proposed then some { cluster with log := cluster.log ++ [.confChange change] } else none
  | .prepare id lastIndex => do
    let driver ← (cluster.members id).driver
    let entry ← cluster.log[driver.handedOut]?
    -- A change that fails ends the process, and what is stored stays.
    return cluster.setMember id { cluster.members id with driver := driver.prepareApplyOperation lastIndex entry }
  | .applyNext id => do
    let driver ← (cluster.members id).driver
    match driver.operations with
    | [] => none
    | operation :: operations =>
      return cluster.setMember id { cluster.members id with
        store := (cluster.members id).store.apply operation
        driver := some { driver with operations } }
  | .crash id => some (cluster.setMember id { cluster.members id with driver := none })
  | .start id lastIndex =>
    let member := cluster.members id
    if member.created ∧ member.driver.isNone then do
      let driver ← member.store.start lastIndex
      return cluster.setMember id { member with
        driver := some driver
        seeded := member.seeded && decide (member.store.applied > 0) }
    else none

end MemberCluster

def RaftNodeInfo.role (info : RaftNodeInfo) : Role := if info.isLearner then .learner else .voter

def RaftNodeInfos.role (infos : RaftNodeInfos) (id : Nat) : Option Role := (infos.get id).map RaftNodeInfo.role

def ConfState.role (confState : ConfState) (id : Nat) : Option Role :=
  if id ∈ confState.voters then some .voter
  else if id ∈ confState.learners then some .learner
  else none

structure Bookkept (confState : ConfState) (infos : RaftNodeInfos) : Prop where
  nodes : ∀ id, infos.contains id = true ↔ id ∈ confState.voters ∨ id ∈ confState.learners
  learners : ∀ id info, infos.get id = some info → (info.isLearner = true ↔ id ∈ confState.learners)

def ConfState.Proper (confState : ConfState) : Prop := ∀ id ∈ confState.voters, id ∉ confState.learners

theorem Bookkept.of_roles {confState : ConfState} {infos : RaftNodeInfos}
    (proper : confState.Proper) (same : ∀ id, confState.role id = infos.role id) : Bookkept confState infos := by
  constructor
  · intro id
    have present := congrArg Option.isSome (same id)
    rw [RaftNodeInfos.role, isSome_map] at present
    rw [Table.contains, ← present, ConfState.role]
    split
    · simp [*]
    · split <;> simp [*]
  · intro id info found
    have same := same id
    unfold ConfState.role RaftNodeInfos.role RaftNodeInfo.role at same
    split at same
    next isVoter =>
      have := proper id isVoter
      simp_all
    · split at same <;> simp_all

theorem Tracker.Consistent.proper {tracker : Tracker} (consistent : tracker.Consistent) :
    tracker.confState.Proper := by
  intro id isVoter isLearner
  have voter := (consistent.voters id).mp (IdSet.mem_toList.mp isVoter)
  have learner := (consistent.learners id).mp (IdSet.mem_toList.mp isLearner)
  rw [voter] at learner
  cases learner

theorem Tracker.Consistent.role_confState {tracker : Tracker} (consistent : tracker.Consistent) (id : Nat) :
    tracker.confState.role id = tracker.role id := by
  unfold ConfState.role Tracker.confState
  simp only [IdSet.mem_toList, consistent.voters, consistent.learners]
  cases tracker.role id with
  | none => simp
  | some role => cases role <;> simp

namespace RaftNodeInfos

theorem role_put (infos : RaftNodeInfos) (key : Nat) (info : RaftNodeInfo) (id : Nat) :
    role (infos.put key info) id = if id = key then some info.role else infos.role id := by
  by_cases same : id = key <;> simp [role, same]

theorem role_add (infos : RaftNodeInfos) (info : RaftNodeInfo) (learner : Bool) (id : Nat) :
    (infos.add info learner).role id =
      if id = info.nodeId then some (if learner then .learner else .voter) else infos.role id := by
  unfold add
  simp only
  split
  · exact role_put infos info.nodeId _ id
  rename_i existing found
  split
  · exact role_put infos info.nodeId _ id
  rename_i sameRole
  by_cases same : id = info.nodeId
  · simp only [not_not] at sameRole
    simp [role, same, found, RaftNodeInfo.role, sameRole]
  · simp [same]

theorem role_apply (infos : RaftNodeInfos) (type : ConfChangeType) (info : RaftNodeInfo) (id : Nat) :
    (infos.apply type info).role id =
      if id = info.nodeId then type.newRole (infos.role id) else infos.role id := by
  cases type with
  | addNode => exact role_add infos info false id
  | addLearnerNode => exact role_add infos info true id
  | removeNode =>
    cases found : infos.get info.nodeId <;> by_cases same : id = info.nodeId <;>
      simp [apply, Table.contains, found, same, role, ConfChangeType.newRole]
  | updateNode =>
    cases found : infos.get info.nodeId <;> by_cases same : id = info.nodeId <;>
      simp [apply, found, same, role, RaftNodeInfo.role, ConfChangeType.newRole]

def Keyed (infos : RaftNodeInfos) : Prop :=
  ∀ (id : Nat) (info : RaftNodeInfo), infos.get id = some info → info.nodeId = id ∧ id ≠ 0

theorem Keyed.empty : Keyed .empty := by
  intro id info found
  cases found

variable {infos : RaftNodeInfos} {info : RaftNodeInfo}

theorem Keyed.put (keyed : Keyed infos) {key : Nat} (own : info.nodeId = key) (nonzero : key ≠ 0) :
    Keyed (Table.put infos key info) :=
  Table.forall_get_put ⟨own, nonzero⟩ keyed

theorem Keyed.add (keyed : Keyed infos) (nonzero : info.nodeId ≠ 0) (learner : Bool) :
    Keyed (infos.add info learner) := by
  unfold RaftNodeInfos.add
  simp only
  split
  · exact keyed.put rfl nonzero
  split
  · exact keyed.put rfl nonzero
  · exact keyed

theorem Keyed.apply (keyed : Keyed infos) (type : ConfChangeType) (nonzero : info.nodeId ≠ 0) :
    Keyed (infos.apply type info) := by
  cases type with
  | addNode => exact keyed.add nonzero false
  | addLearnerNode => exact keyed.add nonzero true
  | removeNode =>
    unfold RaftNodeInfos.apply
    simp only
    split
    · exact fun id other found => keyed id other (Table.get_erase_eq_some.mp found).2
    · exact keyed
  | updateNode =>
    unfold RaftNodeInfos.apply
    simp only
    split
    · exact keyed
    · exact keyed.put rfl nonzero

end RaftNodeInfos

/-! ## What is proposed -/

/-- The context of a change describes the node that it changes. -/
structure MemberChange.WellMade (change : MemberChange) : Prop where
  own : change.info.nodeId = change.nodeId
  nonzero : change.nodeId ≠ 0

theorem validateRaftNodeInfo_nonzero {info : RaftNodeInfo} {name : String} {result : Unit}
    (valid : validateRaftNodeInfo info name = .ok result) : info.nodeId ≠ 0 := by
  simp only [validateRaftNodeInfo, bind_eq_ok, check_eq_ok, exists_and_left] at valid
  exact valid.1

theorem RaftView.require_ok {view : RaftView} (keyed : RaftNodeInfos.Keyed view.nodeInfos)
    {id : Nat} {info : RaftNodeInfo} (done : view.require id = .ok info) : info.nodeId = id ∧ id ≠ 0 := by
  unfold RaftView.require RaftView.find at done
  split at done
  · cases done
  rename_i other found
  cases done
  obtain ⟨stored, isStored, rfl⟩ := map_eq_some_iff.mp found
  have own := keyed id stored isStored
  split <;> exact own

theorem MemberRequest.change_wellMade {name : String} {view : RaftView}
    (keyed : RaftNodeInfos.Keyed view.nodeInfos) {request : MemberRequest} {change : MemberChange}
    (made : request.change name view = .ok change) : change.WellMade := by
  cases request with
  | add info learner =>
    simp only [MemberRequest.change, RaftView.addManagedRaftNode, bind_eq_ok, check_eq_ok, exists_const] at made
    obtain ⟨_, valid, -, -, -, made⟩ := made
    cases made
    exact ⟨rfl, validateRaftNodeInfo_nonzero valid⟩
  | promote id =>
    simp only [MemberRequest.change, RaftView.promoteManagedRaftLearnerNode, bind_eq_ok, check_eq_ok,
      exists_const] at made
    obtain ⟨info, required, -, -, made⟩ := made
    split at made
    · cases made
    simp only [bind_eq_ok, check_eq_ok, exists_const] at made
    obtain ⟨-, made⟩ := made
    cases made
    exact (RaftView.require_ok keyed required).elim .mk
  | remove id =>
    simp only [MemberRequest.change, RaftView.removeManagedRaftNode, bind_eq_ok, check_eq_ok, exists_const] at made
    obtain ⟨info, required, -, -, made⟩ := made
    cases made
    exact (RaftView.require_ok keyed required).elim .mk
  | demote id =>
    simp only [MemberRequest.change, RaftView.demoteManagedRaftNode, bind_eq_ok, check_eq_ok, exists_const] at made
    obtain ⟨info, required, -, -, -, made⟩ := made
    cases made
    exact (RaftView.require_ok keyed required).elim .mk
  | update info =>
    simp only [MemberRequest.change, RaftView.updateManagedRaftNode, bind_eq_ok, check_eq_ok, exists_const] at made
    obtain ⟨_, valid, existing, required, -, -, -, made⟩ := made
    cases made
    exact ⟨rfl, validateRaftNodeInfo_nonzero valid⟩

def InitialPeers.ids (peers : InitialPeers) : List Nat := peers.infos.map RaftNodeInfo.nodeId

theorem InitialPeers.take_count (peers : InitialPeers) : peers.ids.take peers.count = peers.ids :=
  take_of_length_le (by simp [ids, count])

def InitialPeers.role (peers : InitialPeers) (count id : Nat) : Option Role :=
  if id ∈ peers.ids.take count then some .voter else none

/-- How the records stand when `count` entries have been handed out: while the
initial peers of a seeded configuration come in, it already has them all. -/
def Tracks (peers : InitialPeers) (seeded : Bool) (count : Nat) (confState : ConfState) (infos : RaftNodeInfos) :
    Prop :=
  if seeded = true ∧ count < peers.count then
    ∀ id, confState.role id = peers.role peers.count id ∧ infos.role id = peers.role count id
  else ∀ id, confState.role id = infos.role id

variable {lastIndex : Nat} {store : MemberStore}

namespace Tracks

variable {peers : InitialPeers} {seeded : Bool} {count : Nat} {confState : ConfState} {infos : RaftNodeInfos}

theorem of_settled (tracks : Tracks peers seeded count confState infos)
    (settled : peers.count ≤ count ∨ seeded = false) (id : Nat) : confState.role id = infos.role id := by
  unfold Tracks at tracks
  rw [if_neg] at tracks
  · exact tracks id
  rintro ⟨isSeeded, inside⟩
  rcases settled with outside | notSeeded
  · omega
  · rw [isSeeded] at notSeeded
    cases notSeeded

theorem normal (tracks : Tracks peers seeded count confState infos) (outside : peers.count ≤ count) :
    Tracks peers seeded (count + 1) confState infos := by
  have same := tracks.of_settled (.inl outside)
  unfold Tracks
  rw [if_neg (by omega)]
  exact same

theorem seedRoles {trk next : Tracker} {info : RaftNodeInfo}
    (roles : ∀ id, trk.role id = peers.role peers.count id ∧ infos.role id = peers.role count id)
    (isPeer : peers.infos[count]? = some info)
    (isNext : next = Changer.apply lastIndex trk .addNode info.nodeId) (id : Nat) :
    next.role id = peers.role peers.count id ∧
      (infos.apply .addNode info).role id = peers.role (count + 1) id := by
  obtain ⟨inside, rfl⟩ := List.getElem?_eq_some_iff.mp isPeer
  have atCount : peers.ids[count]? = some (peers.infos[count]).nodeId := by
    rw [InitialPeers.ids, getElem?_map, isPeer, map_some]
  have later : peers.role (count + 1) id =
      if id = (peers.infos[count]).nodeId then some .voter else peers.role count id := by
    unfold InitialPeers.role
    rw [take_add_one, atCount]
    by_cases same : id = (peers.infos[count]).nodeId <;> simp [same]
  have all : (peers.infos[count]).nodeId ∈ peers.ids.take peers.count := by
    rw [peers.take_count]
    exact List.mem_map_of_mem (getElem_mem inside)
  rw [isNext, role_apply, RaftNodeInfos.role_apply, later, (roles id).1, (roles id).2]
  refine ⟨?_, rfl⟩
  split
  next both =>
    rw [both.1, InitialPeers.role, if_pos all]
    rfl
  · rfl

theorem change {trk next : Tracker} {change : MemberChange}
    (consistent : trk.Consistent) (tracks : Tracks peers seeded count trk.confState infos)
    (wellMade : change.WellMade) (isPeer : count < peers.count →
      ∃ info, peers.infos[count]? = some info ∧ .confChange change = InitialPeers.entry info)
    (done : Changer.simple lastIndex trk change.type change.nodeId = some next) :
    next.Consistent ∧ Tracks peers seeded (count + 1) next.confState (infos.apply change.type change.info) := by
  obtain ⟨isNext, nextConsistent⟩ := simple_consistent consistent done
  refine ⟨nextConsistent, ?_⟩
  by_cases seeding : seeded = true ∧ count < peers.count
  · obtain ⟨info, found, same⟩ := isPeer seeding.2
    cases same
    unfold Tracks at tracks
    rw [if_pos seeding] at tracks
    have roles := seedRoles (fun id => ⟨consistent.role_confState id ▸ (tracks id).1, (tracks id).2⟩) found isNext
    unfold Tracks
    simp only [nextConsistent.role_confState]
    split
    · exact roles
    -- the last of the initial peers
    rename_i settled
    have isLast : count + 1 = peers.count := by
      have : ¬ count + 1 < peers.count := fun inside => settled ⟨seeding.1, inside⟩
      omega
    intro id
    rw [(roles id).1, (roles id).2, isLast]
  · unfold Tracks at tracks
    rw [if_neg seeding] at tracks
    unfold Tracks
    rw [if_neg fun both => seeding ⟨both.1, by omega⟩]
    intro id
    have same := tracks id
    rw [consistent.role_confState] at same
    rw [nextConsistent.role_confState, isNext, role_apply, RaftNodeInfos.role_apply, wellMade.own, same]
    by_cases own : id = change.nodeId
    · rw [if_pos ⟨own, wellMade.nonzero⟩, if_pos own]
    · rw [if_neg fun both => own both.1, if_neg own]

end Tracks

def MemberOperation.Ok (peers : InitialPeers) (seeded : Bool) (operation : MemberOperation) : Prop :=
  match operation.records with
  | none => peers.count < operation.index
  | some (confState, infos) =>
    confState.Proper ∧ RaftNodeInfos.Keyed infos ∧ Tracks peers seeded operation.index confState infos

/-- The stored records; nothing is stored before the first entry is applied. -/
structure MemberStore.Ok (peers : InitialPeers) (seeded : Bool) (store : MemberStore) : Prop where
  fresh : store.applied = 0 → store = .empty
  proper : (store.confState.getD .empty).Proper
  keyed : RaftNodeInfos.Keyed (store.nodeInfos.getD .empty)
  tracks : 0 < store.applied →
    Tracks peers seeded store.applied (store.confState.getD .empty) (store.nodeInfos.getD .empty)

/-- A driver that has handed out the entries after the stored apply index up to
its own position. -/
structure MemberDriver.Ok (peers : InitialPeers) (seeded : Bool) (applied : Nat) (driver : MemberDriver) : Prop where
  consistent : driver.trk.Consistent
  keyed : RaftNodeInfos.Keyed driver.nodeInfos
  tracks : Tracks peers seeded driver.handedOut driver.trk.confState driver.nodeInfos
  indexes : driver.operations.map MemberOperation.index = List.range' (applied + 1) driver.operations.length
  handedOut : driver.handedOut = applied + driver.operations.length
  operations : ∀ operation ∈ driver.operations, operation.Ok peers seeded

/-- The log begins with the initial peers, and all its changes are well made. -/
structure LogOk (peers : InitialPeers) (log : List MemberEntry) : Prop where
  seed : seedLog peers <+: log
  wellMade : ∀ change, .confChange change ∈ log → change.WellMade

variable {peers : InitialPeers} {trk : Tracker}

namespace MemberDriver.Ok

variable {peers : InitialPeers} {seeded : Bool} {applied : Nat} {driver next : MemberDriver}

theorem push (ok : driver.Ok peers seeded applied) {trk : Tracker} {infos : RaftNodeInfos}
    {records : Option (ConfState × RaftNodeInfos)} (consistent : trk.Consistent)
    (keyed : RaftNodeInfos.Keyed infos) (tracks : Tracks peers seeded (driver.handedOut + 1) trk.confState infos)
    (operation : MemberOperation.Ok peers seeded ⟨driver.handedOut + 1, records⟩) :
    MemberDriver.Ok peers seeded applied
      ⟨trk, infos, driver.handedOut + 1, driver.operations ++ [⟨driver.handedOut + 1, records⟩]⟩ := by
  have handedOut := ok.handedOut
  refine ⟨consistent, keyed, tracks, ?_, ?_, forall_mem_snoc ok.operations operation⟩
  · rw [map_append, ok.indexes, length_append, length_singleton, range'_concat, map_singleton,
      handedOut]
    simp [Nat.add_right_comm]
  · rw [length_append, handedOut]
    exact Nat.add_assoc _ _ _

theorem prepareApplyOperation (ok : driver.Ok peers seeded applied) {log : List MemberEntry} (logOk : LogOk peers log)
    {entry : MemberEntry} (found : log[driver.handedOut]? = some entry)
    (done : driver.prepareApplyOperation lastIndex entry = some next) : next.Ok peers seeded applied := by
  have seedEntry (inside : driver.handedOut < peers.count) :
      ∃ info, peers.infos[driver.handedOut]? = some info ∧ entry = InitialPeers.entry info := by
    obtain ⟨rest, rfl⟩ := logOk.seed
    have short : driver.handedOut < (seedLog peers).length := by simpa [seedLog, InitialPeers.count] using inside
    rw [getElem?_append_left short, seedLog, getElem?_map] at found
    obtain ⟨info, isInfo, rfl⟩ := map_eq_some_iff.mp found
    exact ⟨info, isInfo, rfl⟩
  cases entry with
  | normal =>
    have outside : peers.count ≤ driver.handedOut := by
      by_contra inside
      obtain ⟨info, -, same⟩ := seedEntry (not_le.mp inside)
      cases same
    cases done
    exact ok.push ok.consistent ok.keyed (ok.tracks.normal outside) (Nat.lt_succ_of_le outside)
  | confChange change =>
    obtain ⟨trk, changed, done⟩ := bind_eq_some_iff.mp done
    cases done
    have wellMade := logOk.wellMade change (mem_of_getElem? found)
    obtain ⟨consistent, tracks⟩ := ok.tracks.change ok.consistent wellMade seedEntry changed
    have keyed := ok.keyed.apply change.type (wellMade.own ▸ wellMade.nonzero)
    exact ok.push consistent keyed tracks ⟨consistent.proper, keyed, tracks⟩

theorem applyNext (ok : driver.Ok peers seeded store.applied)
    (storeOk : store.Ok peers seeded) {operation : MemberOperation}
    {operations : List MemberOperation} (isNext : driver.operations = operation :: operations) :
    (store.apply operation).Ok peers seeded ∧
      MemberDriver.Ok peers seeded (store.apply operation).applied { driver with operations } := by
  have indexes := ok.indexes
  have handedOut := ok.handedOut
  have operationOk := ok.operations operation (by rw [isNext]; exact mem_cons_self)
  rw [isNext, map_cons, length_cons, range'_succ, cons.injEq] at indexes
  obtain ⟨index, indexes⟩ := indexes
  rw [isNext, length_cons] at handedOut
  have applied : (store.apply operation).applied = store.applied + 1 := by
    unfold MemberStore.apply
    split <;> exact index
  refine ⟨?_, ok.consistent, ok.keyed, ok.tracks, ?_, ?_, ?_⟩
  · unfold MemberStore.apply
    unfold MemberOperation.Ok at operationOk
    split
    next none =>
      rw [none] at operationOk
      refine ⟨fun zero => ?_, storeOk.proper, storeOk.keyed, fun _ => ?_⟩
      · change operation.index = 0 at zero
        omega
      · have outside : peers.count ≤ store.applied := by
          omega
        rw [index]
        by_cases fresh : store.applied = 0
        · rw [storeOk.fresh fresh]
          unfold Tracks
          rw [if_neg (by omega)]
          exact fun _ => rfl
        · exact (storeOk.tracks (Nat.pos_of_ne_zero fresh)).normal outside
    next confState infos some =>
      rw [some] at operationOk
      obtain ⟨proper, keyed, tracks⟩ := operationOk
      refine ⟨fun zero => ?_, proper, keyed, fun _ => tracks⟩
      change operation.index = 0 at zero
      omega
  · rw [applied]
    exact indexes
  · change driver.handedOut = (store.apply operation).applied + operations.length
    omega
  · intro other member
    exact ok.operations other (by rw [isNext]; exact mem_cons_of_mem _ member)

end MemberDriver.Ok

theorem Changer.restore_consistent {next : Tracker} {confState : ConfState}
    (consistent : trk.Consistent) (done : Changer.restore lastIndex trk confState = some next) : next.Consistent := by
  have folded (type : ConfChangeType) (ids : List Nat) {first last : Tracker} (consistent : first.Consistent)
      (done : ids.foldlM (fun trk id => simple lastIndex trk type id) first = some last) :
      last.Consistent := by
    induction ids generalizing first with
    | nil =>
      cases done
      exact consistent
    | cons id rest ih =>
      obtain ⟨middle, changed, done⟩ := bind_eq_some_iff.mp done
      exact ih (simple_consistent consistent changed).2 done
  obtain ⟨middle, voters, learners⟩ := bind_eq_some_iff.mp done
  exact folded _ _ (folded _ _ consistent voters) learners

theorem MemberStore.Ok.reseed {seeded : Bool} (ok : store.Ok peers seeded) :
    store.Ok peers (seeded && decide (store.applied > 0)) := by
  refine ⟨ok.fresh, ok.proper, ok.keyed, fun positive => ?_⟩
  rw [decide_eq_true positive, Bool.and_true]
  exact ok.tracks positive

theorem MemberStore.Ok.start {seeded : Bool} (ok : store.Ok peers seeded)
    {driver : MemberDriver} (done : store.start lastIndex = some driver) :
    driver.Ok peers (seeded && decide (store.applied > 0)) store.applied := by
  unfold MemberStore.start at done
  split at done
  · cases done
  obtain ⟨trk, restored, done⟩ := bind_eq_some_iff.mp done
  split at done
  · cases done
  rename_i same
  cases done
  have consistent := restore_consistent (Tracker.consistent_new _ _) restored
  refine ⟨consistent, ok.keyed, ?_, rfl, rfl, fun _ member => nomatch member⟩
  rw [not_not.mp same]
  by_cases fresh : store.applied = 0
  · rw [ok.fresh fresh]
    unfold Tracks
    rw [if_neg (by simp [MemberStore.empty])]
    exact fun _ => rfl
  · exact ok.reseed.tracks (Nat.pos_of_ne_zero fresh)

theorem seedTracker_roles (done : seedTracker peers = some trk) :
    trk.Consistent ∧ ∀ id, trk.role id = peers.role peers.count id := by
  have folded (infos : List RaftNodeInfo) (nonzero : ∀ info ∈ infos, info.nodeId ≠ 0) {first last : Tracker}
      (consistent : first.Consistent)
      (done : infos.foldlM (fun trk info => simple peers.count trk .addNode info.nodeId) first = some last) :
      last.Consistent ∧ ∀ id, last.role id =
        if id ∈ infos.map RaftNodeInfo.nodeId then some .voter else first.role id := by
    induction infos generalizing first with
    | nil =>
      cases done
      exact ⟨consistent, fun id => by simp⟩
    | cons info rest ih =>
      obtain ⟨middle, changed, done⟩ := bind_eq_some_iff.mp done
      obtain ⟨rfl, middleConsistent⟩ := simple_consistent consistent changed
      obtain ⟨lastConsistent, roles⟩ :=
        ih (fun other member => nonzero other (mem_cons_of_mem _ member)) middleConsistent done
      refine ⟨lastConsistent, fun id => ?_⟩
      rw [roles, role_apply]
      by_cases same : id = info.nodeId <;> by_cases later : id ∈ rest.map RaftNodeInfo.nodeId <;>
        simp_all [ConfChangeType.newRole]
  obtain ⟨consistent, roles⟩ := folded peers.infos peers.nonzero (Tracker.consistent_new _ _) done
  refine ⟨consistent, fun id => ?_⟩
  rw [roles, InitialPeers.role, peers.take_count]
  rfl

/-! ## Runs -/

structure Member.Ok (peers : InitialPeers) (member : Member) : Prop where
  store : member.store.Ok peers member.seeded
  driver : ∀ driver, member.driver = some driver → driver.Ok peers member.seeded member.store.applied

namespace MemberCluster

variable {name : String} {peers : InitialPeers}

structure Ok (peers : InitialPeers) (cluster : MemberCluster) : Prop where
  log : LogOk peers cluster.log
  proposed : ∀ change ∈ cluster.proposed, change.WellMade
  members : ∀ id, (cluster.members id).Ok peers

theorem storeOk_empty (peers : InitialPeers) (seeded : Bool) : MemberStore.empty.Ok peers seeded :=
  ⟨fun _ => rfl, (fun _ member => nomatch member), .empty, fun positive => absurd positive (lt_irrefl 0)⟩

theorem init_ok (peers : InitialPeers) : (init peers).Ok peers := by
  refine ⟨⟨prefix_refl _, fun change member => ?_⟩, (fun _ member => nomatch member), fun id => ?_⟩
  · obtain ⟨info, isInfo, same⟩ := List.mem_map.mp member
    cases same
    exact ⟨rfl, peers.nonzero info isInfo⟩
  · exact ⟨storeOk_empty peers false, fun _ impossible => nomatch impossible⟩

variable {cluster : MemberCluster}

theorem Ok.setMember (ok : cluster.Ok peers) {id : Nat} {member : Member}
    (memberOk : member.Ok peers) : (cluster.setMember id member).Ok peers := by
  refine ⟨ok.log, ok.proposed, ?_⟩
  exact (Function.forall_update_iff _ fun _ => Member.Ok peers).mpr ⟨memberOk, fun other _ => ok.members other⟩

theorem Ok.step {next : MemberCluster} (ok : cluster.Ok peers) {action : MemberAction}
    (done : cluster.step name peers action = some next) : next.Ok peers := by
  cases action with
  | create id bootstrap =>
    simp only [MemberCluster.step] at done
    split at done
    · cases done
    split at done
    · obtain ⟨trk, seeds, rfl⟩ := map_eq_some_iff.mp done
      obtain ⟨consistent, roles⟩ := seedTracker_roles seeds
      refine ok.setMember ⟨storeOk_empty peers true, fun driver isDriver => ?_⟩
      cases isDriver
      refine ⟨consistent, .empty, ?_, rfl, rfl, fun _ member => nomatch member⟩
      have none (id : Nat) : peers.role 0 id = none := by simp [InitialPeers.role]
      unfold Tracks
      split
      · exact fun id => ⟨(consistent.role_confState id).trans (roles id), (none id).symm⟩
      rename_i noPeers
      have noPeers : peers.count = 0 := by
        by_contra some
        exact noPeers ⟨rfl, Nat.pos_of_ne_zero some⟩
      intro id
      rw [consistent.role_confState, roles, noPeers]
      rfl
    · cases done
      refine ok.setMember ⟨storeOk_empty peers false, fun driver isDriver => ?_⟩
      cases isDriver
      exact ⟨Tracker.consistent_new _ _, .empty, fun _ => rfl, rfl, rfl, fun _ member => nomatch member⟩
  | propose id request lead matched commit =>
    obtain ⟨driver, isDriver, done⟩ := bind_eq_some_iff.mp done
    split at done
    · cases done
    rename_i change made
    cases done
    have wellMade := MemberRequest.change_wellMade ((ok.members id).driver driver isDriver).keyed made
    exact ⟨ok.log, forall_mem_snoc ok.proposed wellMade, ok.members⟩
  | commit entry =>
    have grown (entry : MemberEntry) (wellMade : ∀ change, entry = .confChange change → change.WellMade) :
        LogOk peers (cluster.log ++ [entry]) := by
      refine ⟨ok.log.seed.trans (prefix_append _ _), fun change member => ?_⟩
      rcases mem_append.mp member with old | new
      · exact ok.log.wellMade change old
      · exact wellMade change (mem_singleton.mp new).symm
    cases entry with
    | normal =>
      cases done
      exact ⟨grown _ fun _ impossible => (nomatch impossible), ok.proposed, ok.members⟩
    | confChange change =>
      simp only [MemberCluster.step] at done
      split at done
      next isProposed =>
        cases done
        refine ⟨grown _ fun other same => ?_, ok.proposed, ok.members⟩
        cases same
        exact ok.proposed change isProposed
      · cases done
  | prepare id lastIndex =>
    obtain ⟨driver, isDriver, done⟩ := bind_eq_some_iff.mp done
    obtain ⟨entry, found, done⟩ := bind_eq_some_iff.mp done
    cases done
    have member := ok.members id
    refine ok.setMember ⟨member.store, fun next isNext => ?_⟩
    exact (member.driver driver isDriver).prepareApplyOperation ok.log found isNext
  | applyNext id =>
    obtain ⟨driver, isDriver, done⟩ := bind_eq_some_iff.mp done
    split at done
    · cases done
    rename_i operation operations isNext
    cases done
    have member := ok.members id
    obtain ⟨storeOk, driverOk⟩ := (member.driver driver isDriver).applyNext member.store isNext
    refine ok.setMember ⟨storeOk, fun next same => ?_⟩
    cases same
    exact driverOk
  | crash id =>
    cases done
    exact ok.setMember ⟨(ok.members id).store, fun _ impossible => nomatch impossible⟩
  | start id lastIndex =>
    simp only [MemberCluster.step] at done
    split at done
    · obtain ⟨driver, started, done⟩ := bind_eq_some_iff.mp done
      cases done
      have store := (ok.members id).store
      refine ok.setMember ⟨store.reseed, fun other same => ?_⟩
      cases same
      exact store.start started
    · cases done

def Bookkept (cluster : MemberCluster) (id : Nat) : Prop :=
  let store := (cluster.members id).store
  Eraft.Bookkept (store.confState.getD .empty) (store.nodeInfos.getD .empty)

/-- The node is not halfway through the initial peers of a configuration that
names them all: nothing is stored yet, all of them are, or it was not seeded. -/
def PastBootstrap (peers : InitialPeers) (member : Member) : Prop :=
  member.store.applied = 0 ∨ peers.count ≤ member.store.applied ∨ member.seeded = false

instance (peers : InitialPeers) (member : Member) : Decidable (PastBootstrap peers member) :=
  inferInstanceAs (Decidable (_ ∨ _))

theorem Ok.bookkept (ok : cluster.Ok peers) {id : Nat}
    (past : PastBootstrap peers (cluster.members id)) : cluster.Bookkept id := by
  have store := (ok.members id).store
  by_cases fresh : (cluster.members id).store.applied = 0
  · unfold MemberCluster.Bookkept
    rw [store.fresh fresh]
    exact ⟨fun id => by simp [MemberStore.empty, ConfState.empty, Table.contains], fun _ _ impossible => nomatch impossible⟩
  · exact .of_roles store.proper
      ((store.tracks (Nat.pos_of_ne_zero fresh)).of_settled (past.resolve_left fresh))

theorem Ok.bookkept_iff (ok : cluster.Ok peers) (id : Nat) :
    cluster.Bookkept id ↔ PastBootstrap peers (cluster.members id) := by
  refine ⟨fun bookkept => ?_, ok.bookkept⟩
  by_contra halfway
  simp only [PastBootstrap, not_or, not_le] at halfway
  obtain ⟨started, inside, seeded⟩ := halfway
  have tracks := (ok.members id).store.tracks (Nat.pos_of_ne_zero started)
  unfold Tracks at tracks
  rw [if_pos ⟨by simpa using seeded, inside⟩] at tracks
  -- the first peer whose info has not come in
  have short : (cluster.members id).store.applied < peers.ids.length := by
    simpa [InitialPeers.ids, InitialPeers.count] using inside
  generalize isMissing : peers.ids[(cluster.members id).store.applied] = missing at *
  have isPeer : missing ∈ peers.ids.take peers.count := by
    rw [peers.take_count, ← isMissing]
    exact getElem_mem short
  have notYet : missing ∉ peers.ids.take (cluster.members id).store.applied := by
    have distinct : peers.ids.Nodup := peers.distinct
    intro member
    obtain ⟨k, before, same⟩ := mem_take_iff_getElem.mp member
    have : k = (cluster.members id).store.applied := distinct.getElem_inj_iff.mp (same.trans isMissing.symm)
    omega
  obtain ⟨isVoter, noInfo⟩ := tracks missing
  rw [InitialPeers.role] at isVoter
  rw [InitialPeers.role, if_neg notYet] at noInfo
  have isNode := bookkept.nodes missing
  unfold Table.contains at isNode
  rw [map_eq_none_iff.mp noInfo] at isNode
  have notVoter : missing ∉ _ := fun isVoter => nomatch isNode.mpr (.inl isVoter)
  unfold ConfState.role at isVoter
  rw [if_neg notVoter] at isVoter
  split at isVoter <;> cases isVoter

/-- In every state that a run reaches, a node past its bootstrap has stored
records that name the same nodes and the same learners. -/
theorem bookkept_of_pastBootstrap {actions : List MemberAction} {cluster : MemberCluster}
    (run : Runs (step name peers) anyAction (init peers) actions cluster) {id : Nat}
    (past : PastBootstrap peers (cluster.members id)) : cluster.Bookkept id := by
  have ok := run.invariant (fun cluster => cluster.Ok peers) (init_ok peers) fun _ _ _ ok _ done => ok.step done
  exact ok.bookkept past

/-! ### Two initial peers -/

def twoPeers : InitialPeers where
  infos := [GraphManager.twoInfo 1, GraphManager.twoInfo 2]
  nonzero := by decide
  distinct := by decide

def bootstrapRun : List MemberAction := [.create 1 true, .prepare 1 2, .applyNext 1]

/-- Node 1 has applied the first of the two bootstrap entries: its stored
configuration has voters 1 and 2, and its infos know node 1 only. -/
theorem bookkept_fails_halfway :
    ∃ cluster, Runs (step "social" twoPeers) anyAction (init twoPeers) bootstrapRun cluster ∧
      ¬ cluster.Bookkept 1 := by
  have stored : (execute (step "social" twoPeers) anyAction (init twoPeers) bootstrapRun).map
      (fun cluster => ((cluster.members 1).store.confState.getD .empty,
        ((cluster.members 1).store.nodeInfos.getD .empty).contains 2)) = some (⟨[1, 2], []⟩, false) := by decide
  obtain ⟨cluster, executed, stored⟩ := map_eq_some_iff.mp stored
  refine ⟨cluster, runs_of_execute executed, fun bookkept => ?_⟩
  rw [Prod.mk.injEq] at stored
  have isNode := bookkept.nodes 2
  rw [stored.1, stored.2] at isNode
  simp at isNode

/-- A learner joins, the node crashes between handing out the change and
storing it, and starts again. -/
def learnerRun : List MemberAction :=
  bootstrapRun ++ [.prepare 1 2, .applyNext 1,
    .propose 1 (.add (GraphManager.twoInfo 3) true) 1 none 2,
    .commit (.confChange ⟨.addLearnerNode, 3, GraphManager.twoInfo 3⟩),
    .prepare 1 3, .crash 1, .start 1 3, .prepare 1 3, .applyNext 1]

theorem bookkept_learner :
    ∃ cluster, Runs (step "social" twoPeers) anyAction (init twoPeers) learnerRun cluster ∧
      PastBootstrap twoPeers (cluster.members 1) ∧ cluster.Bookkept 1 := by
  have stored : (execute (step "social" twoPeers) anyAction (init twoPeers) learnerRun).map
      (fun cluster => decide (PastBootstrap twoPeers (cluster.members 1))) = some true := by decide
  obtain ⟨cluster, executed, stored⟩ := map_eq_some_iff.mp stored
  have past := of_decide_eq_true stored
  exact ⟨cluster, runs_of_execute executed, past, bookkept_of_pastBootstrap (runs_of_execute executed) past⟩

end MemberCluster

end RocksGraph.Eraft
