import RocksGraph.Foundation.SharedLog
import RocksGraph.Foundation.Table
import RocksGraph.Foundation.Transition

/-! The graph data of the replicas of a raft graph (`graph_db.cc`,
`graph_db_raft.cc`, `transaction.cc`, `graph_manager.cc`, `graph_manager_snapshot.cc`).

A transaction commits its write batch through the replicated log, and a replica
stores the batch together with the index of its entry. Three other paths write
to the column families of the graph: `ClearGraph`, a transaction that commits
after `DeleteGraph` has stopped the raft driver, and the installation of a
checkpoint. -/

set_option autoImplicit false

namespace RocksGraph.ReplicaData

open Foundation List Option

inductive Family where
  | graphTopology
  | vertexProperty
  | vertexVectorProperty
  | edgeProperty
  | vertexLabelVid
  | edgeTypeEid
  deriving DecidableEq, Repr

section

variable (Key Value : Type) [LinearOrder Key]

inductive Write where
  | put (family : Family) (key : Key) (value : Value)
  | delete (family : Family) (key : Key)
  deriving DecidableEq

/-- A log entry. Requests other than `GRAPH_WRITE` and configuration changes
write to none of the families. -/
inductive Record where
  | graphWrite (batch : List (Write Key Value))
  | other
  deriving DecidableEq

abbrev Data := Family → Table Key Value

/-- One replica: its data and apply index as stored, whether its graph exists
and has a raft driver, and a checkpoint that it has downloaded. -/
structure Replica where
  data : Data Key Value
  applied : Nat
  present : Bool
  attached : Bool
  checkpoint : Option (Nat × Data Key Value)

structure Cluster where
  shared : SharedLog Nat (Record Key Value)
  replicas : Nat → Replica Key Value

end

variable {Key Value : Type} [LinearOrder Key]

def Data.empty : Data Key Value := fun _ => .empty

def Data.write (data : Data Key Value) : Write Key Value → Data Key Value
  | .put family key value => Function.update data family ((data family).put key value)
  | .delete family key => Function.update data family ((data family).erase key)

def Data.writeBatch (data : Data Key Value) (batch : List (Write Key Value)) : Data Key Value :=
  batch.foldl Data.write data

/-- `ApplyRaftRequest`, as far as the families go. -/
def Data.apply (data : Data Key Value) : Record Key Value → Data Key Value
  | .graphWrite batch => data.writeBatch batch
  | .other => data

def Data.replay (log : List (Record Key Value)) : Data Key Value := log.foldl Data.apply .empty

inductive Action (Key Value : Type) where
  | elect (node : Nat) (branch : List (Record Key Value))
  | commitLog (upto : Nat)
  | propose (node : Nat) (record : Record Key Value)
  | commitTransaction (node : Nat) (batch : List (Write Key Value))
  | applyNext (node : Nat)
  | clearGraph (node : Nat)
  | stopRaft (node : Nat)
  | deleteGraph (node : Nat)
  | reopen (node : Nat)
  | download (node source : Nat)
  | install (node : Nat)

namespace Cluster

def init : Cluster Key Value where
  shared := .empty
  replicas := fun _ => ⟨.empty, 0, true, true, none⟩

def setReplica (cluster : Cluster Key Value) (node : Nat) (replica : Replica Key Value) : Cluster Key Value :=
  { cluster with replicas := Function.update cluster.replicas node replica }

def propose (cluster : Cluster Key Value) (node : Nat) (record : Record Key Value) : Option (Cluster Key Value) :=
  let replica := cluster.replicas node
  if replica.present ∧ replica.attached ∧ cluster.shared.leader = some node then
    some { cluster with shared := cluster.shared.append record }
  else none

/-- `Transaction::Commit`: without a raft driver the batch is written at once. -/
def commitTransaction (cluster : Cluster Key Value) (node : Nat) (batch : List (Write Key Value)) :
    Option (Cluster Key Value) :=
  let replica := cluster.replicas node
  if !replica.present then none
  else if batch.isEmpty then some cluster
  else if replica.attached then cluster.propose node (.graphWrite batch)
  else some (cluster.setReplica node { replica with data := replica.data.writeBatch batch })

/-- `ApplyRaftWriteBatch` for the next committed entry: the batch and the apply
index are one write. -/
def applyNext (cluster : Cluster Key Value) (node : Nat) : Option (Cluster Key Value) :=
  let replica := cluster.replicas node
  if replica.present ∧ replica.attached then
    (cluster.shared.committedLog[replica.applied]?).map fun record =>
      cluster.setReplica node { replica with
        data := replica.data.apply record
        applied := replica.applied + 1 }
  else none

/-- `GraphManager::ClearGraph` on a raft graph: `ClearDataInternal` deletes all
entries of the families and leaves the apply index. -/
def clearGraph (cluster : Cluster Key Value) (node : Nat) : Option (Cluster Key Value) :=
  let replica := cluster.replicas node
  if replica.present then some (cluster.setReplica node { replica with data := .empty }) else none

def step [DecidableEq Value] (cluster : Cluster Key Value) : Action Key Value → Option (Cluster Key Value)
  | .elect node branch => (cluster.shared.elect node branch).map fun shared => { cluster with shared }
  | .commitLog upto => (cluster.shared.commit upto).map fun shared => { cluster with shared }
  | .propose node record => cluster.propose node record
  | .commitTransaction node batch => cluster.commitTransaction node batch
  | .applyNext node => cluster.applyNext node
  | .clearGraph node => cluster.clearGraph node
  | .stopRaft node => some (cluster.setReplica node { cluster.replicas node with attached := false })
  | .deleteGraph node =>
    let replica := cluster.replicas node
    if replica.attached then none else some (cluster.setReplica node { replica with present := false })
  | .reopen node => some (cluster.setReplica node { cluster.replicas node with attached := true, checkpoint := none })
  | .download node source =>
    let sender := cluster.replicas source
    if sender.present ∧ sender.attached ∧ sender.applied > 0 then
      some (cluster.setReplica node { cluster.replicas node with checkpoint := some (sender.applied, sender.data) })
    else none
  | .install node =>
    let replica := cluster.replicas node
    if !replica.present then none
    else replica.checkpoint.map fun (applied, data) =>
      cluster.setReplica node { replica with applied, data, attached := true, checkpoint := none }

/-- An action that changes the families only by what the log says: no
`ClearGraph`, and no transaction that commits without a raft driver. -/
def throughLog (cluster : Cluster Key Value) (action : Action Key Value) : Prop :=
  (match action with
    | .clearGraph _ => false
    | .commitTransaction node batch => (cluster.replicas node).attached || batch.isEmpty
    | _ => true) = true

instance (cluster : Cluster Key Value) (action : Action Key Value) : Decidable (throughLog cluster action) :=
  inferInstanceAs (Decidable (_ = true))

structure Replayed (shared : SharedLog Nat (Record Key Value)) (applied : Nat) (data : Data Key Value) : Prop where
  committed : applied ≤ shared.committed
  data : data = Data.replay (shared.log.take applied)

structure Ok (cluster : Cluster Key Value) : Prop where
  replica : ∀ node, Replayed cluster.shared (cluster.replicas node).applied (cluster.replicas node).data
  checkpoint : ∀ node applied data, (cluster.replicas node).checkpoint = some (applied, data) →
    Replayed cluster.shared applied data

variable {record : Record Key Value} {shared : SharedLog Nat (Record Key Value)} {applied : Nat}
  {data : Data Key Value}

theorem Replayed.follows {next : SharedLog Nat (Record Key Value)}
    (replayed : Replayed shared applied data) (follows : shared.Follows next) : Replayed next applied data :=
  ⟨le_trans replayed.committed follows.committed_le,
    by rw [follows.take_eq _ replayed.committed]; exact replayed.data⟩

theorem Replayed.append (replayed : Replayed shared applied data) (record : Record Key Value) :
    Replayed (shared.append record) applied data :=
  ⟨replayed.committed, by rw [shared.take_append_log record replayed.committed]; exact replayed.data⟩

theorem Replayed.applyNext (replayed : Replayed shared applied data)
    (found : shared.committedLog[applied]? = some record) : Replayed shared (applied + 1) (data.apply record) := by
  rw [SharedLog.committedLog, getElem?_take] at found
  split at found
  next inside =>
    refine ⟨inside, ?_⟩
    rw [Data.replay, take_add_one, found, toList_some, foldl_append, replayed.data]
    rfl
  · cases found

theorem init_ok : (init : Cluster Key Value).Ok :=
  ⟨fun _ => ⟨le_rfl, rfl⟩, fun _ _ _ impossible => nomatch impossible⟩

variable {cluster next : Cluster Key Value}

theorem Ok.setShared (ok : cluster.Ok)
    (kept : ∀ applied data, Replayed cluster.shared applied data → Replayed shared applied data) :
    Ok { cluster with shared } :=
  ⟨fun node => kept _ _ (ok.replica node), fun node applied data found => kept _ _ (ok.checkpoint node applied data found)⟩

theorem Ok.setReplica (ok : cluster.Ok) {node : Nat} {replica : Replica Key Value}
    (data : Replayed cluster.shared replica.applied replica.data)
    (checkpoint : ∀ applied data, replica.checkpoint = some (applied, data) → Replayed cluster.shared applied data) :
    (cluster.setReplica node replica).Ok := by
  constructor
  · refine (Function.forall_update_iff cluster.replicas fun _ replica =>
      Replayed cluster.shared replica.applied replica.data).mpr ?_
    exact ⟨data, fun other _ => ok.replica other⟩
  · refine (Function.forall_update_iff cluster.replicas fun _ replica => ∀ applied data,
      replica.checkpoint = some (applied, data) → Replayed cluster.shared applied data).mpr ?_
    exact ⟨checkpoint, fun other _ => ok.checkpoint other⟩

theorem Ok.propose (ok : cluster.Ok) {node : Nat} (done : cluster.propose node record = some next) : next.Ok := by
  simp only [Cluster.propose] at done
  split at done
  · cases done
    exact ok.setShared fun _ _ replayed => replayed.append record
  · cases done

variable [DecidableEq Value]

theorem Ok.step (ok : cluster.Ok) {action : Action Key Value} (allowed : throughLog cluster action)
    (done : cluster.step action = some next) : next.Ok := by
  cases action with
  | elect node branch =>
    obtain ⟨shared, elected, rfl⟩ := map_eq_some_iff.mp done
    exact ok.setShared fun _ _ replayed => replayed.follows (SharedLog.elect_follows elected)
  | commitLog upto =>
    obtain ⟨shared, committed, rfl⟩ := map_eq_some_iff.mp done
    exact ok.setShared fun _ _ replayed => replayed.follows (SharedLog.commit_follows committed)
  | propose node record => exact ok.propose done
  | commitTransaction node batch =>
    simp only [Cluster.step, Cluster.commitTransaction] at done
    simp only [throughLog, Bool.or_eq_true] at allowed
    split at done
    · cases done
    split at done
    · cases done
      exact ok
    next nonempty =>
      have attached := allowed.resolve_right nonempty
      rw [if_pos attached] at done
      exact ok.propose done
  | applyNext node =>
    simp only [Cluster.step, Cluster.applyNext] at done
    split at done
    · obtain ⟨record, found, rfl⟩ := map_eq_some_iff.mp done
      exact ok.setReplica ((ok.replica node).applyNext found) (ok.checkpoint node)
    · cases done
  | clearGraph node => cases allowed
  | stopRaft node =>
    cases done
    exact ok.setReplica (ok.replica node) (ok.checkpoint node)
  | deleteGraph node =>
    simp only [Cluster.step] at done
    split at done
    · cases done
    · cases done
      exact ok.setReplica (ok.replica node) (ok.checkpoint node)
  | reopen node =>
    cases done
    exact ok.setReplica (ok.replica node) fun _ _ impossible => nomatch impossible
  | download node source =>
    simp only [Cluster.step] at done
    split at done
    · cases done
      refine ok.setReplica (ok.replica node) fun applied data found => ?_
      cases found
      exact ok.replica source
    · cases done
  | install node =>
    simp only [Cluster.step] at done
    split at done
    · cases done
    · obtain ⟨⟨applied, data⟩, found, rfl⟩ := map_eq_some_iff.mp done
      exact ok.setReplica (ok.checkpoint node applied data found) fun _ _ impossible => nomatch impossible

/-- In every run whose actions change the data through the log, replicas with
one apply index hold the same data, the one that the applied log makes. -/
theorem data_eq_of_throughLog {actions : List (Action Key Value)}
    (run : Runs Cluster.step throughLog init actions cluster) (first second : Nat)
    (same : (cluster.replicas first).applied = (cluster.replicas second).applied) :
    (cluster.replicas first).data = (cluster.replicas second).data ∧ (cluster.replicas first).data =
        Data.replay (cluster.shared.committedLog.take (cluster.replicas first).applied) := by
  have ok : cluster.Ok := run.invariant Ok init_ok fun _ _ _ ok allowed done => ok.step allowed done
  have firstData := ok.replica first
  have secondData := ok.replica second
  refine ⟨firstData.data.trans (same ▸ secondData.data.symm), ?_⟩
  rw [SharedLog.committedLog, take_take, min_eq_left firstData.committed]
  exact firstData.data

/-! ### Two replicas -/

/-- Replica 1 leads and commits a vertex that both replicas apply. -/
def vertexRun : List (Action Nat Nat) :=
  [.elect 1 [], .commitTransaction 1 [.put .graphTopology 7 0], .commitLog 1, .applyNext 1, .applyNext 2]

/-- `ClearGraph` on replica 2 after that. -/
def clearedRun : List (Action Nat Nat) := vertexRun ++ [.clearGraph 2]

/-- `DeleteGraph` stops the driver of replica 2, a transaction there commits,
and the process ends before the graph is deleted. -/
def detachedRun : List (Action Nat Nat) :=
  [.stopRaft 2, .commitTransaction 2 [.put .graphTopology 7 0], .reopen 2]

/-- Both runs end with one apply index and different data. -/
theorem data_differs :
    (∃ cluster, Runs Cluster.step anyAction (init : Cluster Nat Nat) clearedRun cluster ∧
      (cluster.replicas 1).applied = (cluster.replicas 2).applied ∧
      (cluster.replicas 1).data ≠ (cluster.replicas 2).data) ∧
    ∃ cluster, Runs Cluster.step anyAction (init : Cluster Nat Nat) detachedRun cluster ∧
      (cluster.replicas 1).applied = (cluster.replicas 2).applied ∧
      (cluster.replicas 1).data ≠ (cluster.replicas 2).data := by
  let seen (cluster : Cluster Nat Nat) (node : Nat) :=
    ((cluster.replicas node).applied, ((cluster.replicas node).data .graphTopology).get 7)
  have differ {cluster : Cluster Nat Nat} {applied : Nat} {left right : Option Nat}
      (found : (seen cluster 1, seen cluster 2) = ((applied, left), (applied, right))) (distinct : left ≠ right) :
      (cluster.replicas 1).applied = (cluster.replicas 2).applied ∧
        (cluster.replicas 1).data ≠ (cluster.replicas 2).data := by
    simp only [seen, Prod.mk.injEq] at found
    obtain ⟨⟨firstApplied, firstFound⟩, secondApplied, secondFound⟩ := found
    refine ⟨firstApplied.trans secondApplied.symm, fun same => distinct ?_⟩
    rw [← firstFound, ← secondFound, same]
  constructor
  · have found : (execute Cluster.step anyAction (init : Cluster Nat Nat) clearedRun).map
        (fun cluster => (seen cluster 1, seen cluster 2)) = some ((1, some 0), (1, none)) := by decide
    obtain ⟨cluster, executed, found⟩ := map_eq_some_iff.mp found
    exact ⟨cluster, runs_of_execute executed, differ found (by decide)⟩
  · have found : (execute Cluster.step anyAction (init : Cluster Nat Nat) detachedRun).map
        (fun cluster => (seen cluster 1, seen cluster 2)) = some ((0, none), (0, some 0)) := by decide
    obtain ⟨cluster, executed, found⟩ := map_eq_some_iff.mp found
    exact ⟨cluster, runs_of_execute executed, differ found (by decide)⟩

theorem data_eq_vertexRun :
    ∃ cluster, Runs Cluster.step throughLog (init : Cluster Nat Nat) vertexRun cluster ∧
      (cluster.replicas 1).applied = (cluster.replicas 2).applied ∧
      (cluster.replicas 1).data = (cluster.replicas 2).data := by
  have found : (execute Cluster.step throughLog (init : Cluster Nat Nat) vertexRun).map
      (fun cluster => ((cluster.replicas 1).applied, (cluster.replicas 2).applied)) = some (1, 1) := by decide
  obtain ⟨cluster, executed, found⟩ := map_eq_some_iff.mp found
  rw [Prod.mk.injEq] at found
  have same := found.1.trans found.2.symm
  exact ⟨cluster, runs_of_execute executed, same, (data_eq_of_throughLog (runs_of_execute executed) 1 2 same).1⟩

end Cluster

end RocksGraph.ReplicaData
