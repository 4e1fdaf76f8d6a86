import Mathlib.Algebra.GroupWithZero.Nat
import RocksGraph.Catalog.MetaInfo
import RocksGraph.Foundation.SharedLog
import RocksGraph.Foundation.Transition

/-! Index definitions of a replicated graph (`graph_db_raft.cc`, `raft_driver.cc`).

A call is checked against the catalog of the process it is made on and then
proposed. A leader, or one that does not know that it is deposed, appends the
entry later, and every replica applies it to its own catalog. -/

set_option autoImplicit false

namespace RocksGraph.IndexDdl

open Foundation Catalog List Option MetaInfo

/-- What is outside of the source: which byte strings `ParseFromString` takes as
text, and whether the text index library takes a list of fields. -/
structure Libraries where
  utf8 : String → Bool
  schema : List String → Bool

/-- An entry of the log with the texts of its payload. -/
structure Entry where
  request : Request
  texts : List String
  deriving DecidableEq

/-- A checked call whose entry may still be appended, with the ids it was given. -/
structure Proposal where
  tokens : Tokens
  call : Call
  indexId : Nat
  entry : Entry

/-- `stored` has the records of the catalog that are on disk, and `nextIndexId`
is `index_next_id_`. -/
structure Replica where
  applied : Nat
  info : MetaInfo
  stored : MetaInfo
  nextIndexId : Nat
  posted : List Proposal

/-- `thrown` has what applying has thrown, with the node; the process of the
node is aborted and started again. -/
structure Cluster where
  shared : SharedLog Nat Entry
  replicas : Nat → Replica
  thrown : List (Nat × Error)

def Replica.init : Replica := ⟨0, .empty, .empty, 1, []⟩

def Cluster.init : Cluster := ⟨.empty, fun _ => .init, []⟩

inductive IndexKind where
  | vertexProperty
  | edgeProperty
  | fullText
  | vector
  deriving DecidableEq, Repr

inductive Action where
  | elect (node : Nat) (branch : List Entry)
  | commit (upto : Nat)
  | call (node : Nat) (tokens : Tokens) (call : Call) (sent : List String)
  | append (node position : Nat)
  | fork (node position : Nat) (branch : List Entry)
  | apply (node : Nat)
  | setState (node : Nat) (kind : IndexKind) (name : String) (state : BuildState)
  | restart (node : Nat)
  | install (node source : Nat)

def drawsIndexId : Call → Bool
  | .addVertexPropertyIndex .. | .addEdgePropertyIndex .. | .addVertexFullTextIndex ..
  | .addVertexVectorIndex .. => true
  | .addVertexVectorField .. | .deleteVertexPropertyIndex _ | .deleteEdgePropertyIndex _
  | .deleteVertexFullTextIndex _ | .deleteVertexVectorIndex _ => false

def requestIndexId : Request → Option Nat
  | .createVertexPropertyIndex index | .createEdgePropertyIndex index => some index.indexId
  | .createVertexFullTextIndex index => some index.indexId
  | .createVertexVectorIndex index => some index.indexId
  | .createVertexVectorField _ | .deleteVertexPropertyIndex _ | .deleteEdgePropertyIndex _
  | .deleteVertexFullTextIndex _ | .deleteVertexVectorIndex _ => none

/-- The texts of a payload. A deletion sends the record of the index as the
process has it, with the path and the error of the build: `sent` are its texts. -/
def payloadTexts (sent : List String) : Request → List String
  | .createVertexPropertyIndex index | .createEdgePropertyIndex index =>
    index.name :: index.owner :: index.properties
  | .createVertexFullTextIndex index => index.name :: index.labels ++ index.properties
  | .createVertexVectorField field => [field.label, field.property]
  | .createVertexVectorIndex index => [index.name, index.label, index.property]
  | .deleteVertexPropertyIndex _ | .deleteEdgePropertyIndex _ | .deleteVertexFullTextIndex _
  | .deleteVertexVectorIndex _ => sent

def operationText : Request → String
  | .createVertexPropertyIndex _ => "create vertex property index"
  | .deleteVertexPropertyIndex _ => "delete vertex property index"
  | .createEdgePropertyIndex _ => "create edge property index"
  | .deleteEdgePropertyIndex _ => "delete edge property index"
  | .createVertexFullTextIndex _ => "create vertex fulltext index"
  | .deleteVertexFullTextIndex _ => "delete vertex fulltext index"
  | .createVertexVectorIndex _ => "create vertex vector index"
  | .deleteVertexVectorIndex _ => "delete vertex vector index"
  | .createVertexVectorField _ => "create vertex vector field"

/-- The text goes on with the graph and the raft index of the entry. -/
def parseError (request : Request) : Error :=
  let operation := operationText request
  .invalid s!"failed to parse {operation} request"

/-- `ApplyGraphIndexDdlRequest`. -/
def applyEntry (libraries : Libraries) (info : MetaInfo) (entry : Entry) : Except Error MetaInfo := do
  check (∀ text ∈ entry.texts, libraries.utf8 text) (parseError entry.request)
  info.apply libraries.schema entry.request

section Disk

variable {Record Key : Type} [DecidableEq Key]

def put (key : Record → Key) (records : List Record) (record : Record) : List Record :=
  (records.filter fun other => key other ≠ key record) ++ [record]

theorem put_eq {key : Record → Key} {records : List Record} {record : Record}
    (absent : ∀ other ∈ records, key other ≠ key record) : put key records record = records ++ [record] :=
  congrArg (· ++ [record]) (filter_eq_self.mpr fun other mem => by simpa using absent other mem)

end Disk

/-- `BuildVectorFieldMetaKey`. -/
def fieldKey (field : VectorField) : String := field.label ++ "\x00" ++ field.property

/-- What the batch of an entry does to the records; `info` is the catalog before. -/
def store (info stored : MetaInfo) (request : Request) : MetaInfo :=
  match request with
  | .createVertexPropertyIndex index =>
    if info.Known request then stored else { stored with
      vertexPropertyIndexes := put PropertyIndex.name stored.vertexPropertyIndexes { index with state := .building } }
  | .createEdgePropertyIndex index =>
    if info.Known request then stored else { stored with
      edgePropertyIndexes := put PropertyIndex.name stored.edgePropertyIndexes { index with state := .building } }
  | .createVertexFullTextIndex index =>
    if info.Known request then stored else { stored with
      fullTextIndexes := put FullTextIndex.name stored.fullTextIndexes { index with state := .building } }
  | .createVertexVectorField field =>
    if info.Known request then stored else { stored with vectorFields := put fieldKey stored.vectorFields field }
  | .createVertexVectorIndex index =>
    if info.Known request then stored else { stored with
      vectorIndexes := put VectorIndex.name stored.vectorIndexes { index with state := .building } }
  | .deleteVertexPropertyIndex name =>
    { stored with vertexPropertyIndexes := stored.vertexPropertyIndexes.filter (·.name ≠ name) }
  | .deleteEdgePropertyIndex name =>
    { stored with edgePropertyIndexes := stored.edgePropertyIndexes.filter (·.name ≠ name) }
  | .deleteVertexFullTextIndex name =>
    { stored with fullTextIndexes := stored.fullTextIndexes.filter (·.name ≠ name) }
  | .deleteVertexVectorIndex name =>
    { stored with vectorIndexes := stored.vectorIndexes.filter (·.name ≠ name) }

/-- `SetState` of an index. -/
def setState (info : MetaInfo) (kind : IndexKind) (name : String) (state : BuildState) : MetaInfo :=
  match kind with
  | .vertexProperty => { info with vertexPropertyIndexes := info.vertexPropertyIndexes.map fun index =>
      if index.name = name then { index with state } else index }
  | .edgeProperty => { info with edgePropertyIndexes := info.edgePropertyIndexes.map fun index =>
      if index.name = name then { index with state } else index }
  | .fullText => { info with fullTextIndexes := info.fullTextIndexes.map fun index =>
      if index.name = name then { index with state } else index }
  | .vector => { info with vectorIndexes := info.vectorIndexes.map fun index =>
      if index.name = name then { index with state } else index }

namespace Replica

def call (replica : Replica) (tokens : Tokens) (call : Call) (sent : List String) : Replica :=
  match replica.info.propose tokens replica.nextIndexId call with
  | .ok request =>
    { replica with
      nextIndexId := if drawsIndexId call then (replica.nextIndexId + 1) % 2 ^ 32 else replica.nextIndexId
      posted := replica.posted ++
        [⟨tokens, call, replica.nextIndexId, ⟨request, payloadTexts sent request⟩⟩] }
  | .error _ => replica

variable (replica : Replica)

def afterApply (request : Request) (info : MetaInfo) : Replica :=
  { replica with
    applied := replica.applied + 1
    info
    stored := store replica.info replica.stored request
    nextIndexId := match requestIndexId request with
      | some id => if replica.info.Known request then replica.nextIndexId
          else max replica.nextIndexId ((id + 1) % 2 ^ 32)
      | none => replica.nextIndexId }

/-- A step of a build: the state is set and written with the DDL lock held. -/
def setState (kind : IndexKind) (name : String) (state : BuildState) : Replica :=
  { replica with
    info := IndexDdl.setState replica.info kind name state
    stored := IndexDdl.setState replica.stored kind name state }

/-- `SetMaxIds` with the largest id of the stored indexes. -/
def loadedIndexId (info : MetaInfo) : Nat :=
  ((info.vertexPropertyIndexes.map PropertyIndex.indexId ++ info.edgePropertyIndexes.map PropertyIndex.indexId ++
    info.fullTextIndexes.map FullTextIndex.indexId ++ info.vectorIndexes.map VectorIndex.indexId).foldl max 0 + 1) %
      2 ^ 32

/-- `MetaInfo::Init`: the catalog is read back from the disk. -/
def restart : Replica where
  applied := replica.applied
  info := replica.stored
  stored := replica.stored
  nextIndexId := loadedIndexId replica.stored
  posted := []

end Replica

namespace Cluster

def setReplica (cluster : Cluster) (node : Nat) (replica : Replica) : Cluster :=
  { cluster with replicas := Function.update cluster.replicas node replica }

/-- A posted proposal has left the queue of its node. -/
def post (cluster : Cluster) (node position : Nat) (shared : SharedLog Nat Entry) : Cluster :=
  let replica := cluster.replicas node
  { cluster.setReplica node { replica with posted := replica.posted.eraseIdx position } with shared }

variable (libraries : Libraries)

/-- `RaftDriver::Apply` for the next committed entry of a node. -/
def applyNext (cluster : Cluster) (node : Nat) : Option Cluster :=
  let replica := cluster.replicas node
  (cluster.shared.committedLog[replica.applied]?).map fun entry =>
    match applyEntry libraries replica.info entry with
    | .ok info => cluster.setReplica node (replica.afterApply entry.request info)
    | .error error =>
      { cluster.setReplica node replica.restart with thrown := cluster.thrown ++ [(node, error)] }

def step (cluster : Cluster) : Action → Option Cluster
  | .elect node branch => (cluster.shared.elect node branch).map fun shared => { cluster with shared }
  | .commit upto => (cluster.shared.commit upto).map fun shared => { cluster with shared }
  | .call node tokens call sent =>
    some (cluster.setReplica node ((cluster.replicas node).call tokens call sent))
  | .append node position =>
    if cluster.shared.leader = some node then
      ((cluster.replicas node).posted[position]?).map fun proposal =>
        cluster.post node position (cluster.shared.append proposal.entry)
    else none
  | .fork node position branch =>
    ((cluster.replicas node).posted[position]?).bind fun proposal =>
      (cluster.shared.fork branch proposal.entry).map (cluster.post node position)
  | .apply node => cluster.applyNext libraries node
  | .setState node kind name state => some (cluster.setReplica node ((cluster.replicas node).setState kind name state))
  | .restart node => some (cluster.setReplica node (cluster.replicas node).restart)
  | .install node source => some (cluster.setReplica node (cluster.replicas source).restart)

variable (info : MetaInfo)

def replayEntry (entry : Entry) : MetaInfo :=
  match applyEntry libraries info entry with
  | .ok next => next
  | .error _ => info

def catalog (log : List Entry) : MetaInfo := log.foldl (replayEntry libraries) .empty

def NamesFree : Request → Prop
  | .createVertexVectorField field => ∀ other ∈ info.vectorFields, fieldKey other = fieldKey field →
      other.labelId = field.labelId ∧ other.propertyId = field.propertyId
  | _ => True

/-- The payload can be read, and the call would be accepted on this catalog too
or there is nothing to do. -/
def Fits (proposal : Proposal) : Prop :=
  (∀ text ∈ proposal.entry.texts, libraries.utf8 text) ∧
    (info.Known proposal.entry.request ∨
      info.propose proposal.tokens proposal.indexId proposal.call = .ok proposal.entry.request ∧
        proposal.entry.request.FullTextFits libraries.schema ∧ NamesFree info proposal.entry.request)

/-- An entry is appended where its call would still be accepted. -/
def revalidated (cluster : Cluster) : Action → Prop
  | .append node position => ∀ proposal ∈ (cluster.replicas node).posted[position]?,
      Fits libraries (catalog libraries cluster.shared.log) proposal
  | .fork node position branch => ∀ proposal ∈ (cluster.replicas node).posted[position]?,
      Fits libraries (catalog libraries branch) proposal
  | _ => True

instance (request : Request) : Decidable (NamesFree info request) :=
  match request with
  | .createVertexVectorField _ => inferInstanceAs (Decidable (∀ other ∈ _, _ → _))
  | .createVertexPropertyIndex _ | .createEdgePropertyIndex _ | .createVertexFullTextIndex _
  | .createVertexVectorIndex _ | .deleteVertexPropertyIndex _ | .deleteEdgePropertyIndex _
  | .deleteVertexFullTextIndex _ | .deleteVertexVectorIndex _ => instDecidableTrue

instance (proposal : Proposal) : Decidable (Fits libraries info proposal) :=
  inferInstanceAs (Decidable (_ ∧ _))

instance (cluster : Cluster) (action : Action) : Decidable (revalidated libraries cluster action) := by
  unfold revalidated
  split <;> infer_instance

variable {libraries info}

/-- What an entry of the log may be: the log before it accepts it. -/
def Allowed (libraries : Libraries) (before : List Entry) (entry : Entry) : Prop :=
  (∃ next, applyEntry libraries (catalog libraries before) entry = .ok next) ∧
    ((catalog libraries before).Known entry.request ∨ NamesFree (catalog libraries before) entry.request)

theorem applyEntry_eq_ok {entry : Entry} {next : MetaInfo} : applyEntry libraries info entry = .ok next ↔
    (∀ text ∈ entry.texts, libraries.utf8 text) ∧ info.apply libraries.schema entry.request = .ok next := by
  simp only [applyEntry, check_bind_eq_ok, check_eq_ok]

theorem Fits.allowed {log : List Entry} {proposal : Proposal} (made : proposal.entry.request.WellMade)
    (fits : Fits libraries (catalog libraries log) proposal) : Allowed libraries log proposal.entry := by
  obtain ⟨texts, known | ⟨proposed, fits, free⟩⟩ := fits
  · obtain ⟨next, applied⟩ := apply_of_known made known
    exact ⟨⟨next, applyEntry_eq_ok.mpr ⟨texts, applied⟩⟩, .inl known⟩
  · obtain ⟨next, applied⟩ := apply_of_propose proposed fits
    exact ⟨⟨next, applyEntry_eq_ok.mpr ⟨texts, applied⟩⟩, .inr free⟩

/-- What is written keeps the disk in step with the catalog. -/
theorem store_eq {schema : List String → Bool} {request : Request} {next : MetaInfo}
    (free : info.Known request ∨ NamesFree info request) (applied : info.apply schema request = .ok next) :
    store info info request = next := by
  cases request with
  | createVertexPropertyIndex index | createEdgePropertyIndex index =>
    obtain ⟨indexes, created, rfl⟩ := MetaInfo.map_eq_ok.mp applied
    obtain ⟨-, ⟨known, rfl⟩ | ⟨unknown, -, -, -, rfl⟩⟩ := applyCreatePropertyIndex_eq_ok.mp created
    · exact if_pos known
    · rw [store, if_neg (by simpa [MetaInfo.Known] using unknown), put_eq]
      simpa [propertyIndexByName] using unknown
  | createVertexFullTextIndex index =>
    obtain ⟨-, ⟨known, rfl⟩ | ⟨unknown, -, -, -, rfl⟩⟩ := applyCreateVertexFullTextIndex_eq_ok.mp applied
    · exact if_pos known
    · rw [store, if_neg (by simpa [MetaInfo.Known] using unknown), put_eq]
      simpa [getVertexFullTextIndex] using unknown
  | createVertexVectorField field =>
    obtain ⟨-, -, ⟨known, rfl⟩ | ⟨missing, -, rfl⟩⟩ := applyCreateVertexVectorField_eq_ok.mp applied
    · exact if_pos known
    · have unknown : ¬ info.Known (.createVertexVectorField field) := by simp [MetaInfo.Known, missing]
      rw [store, if_neg unknown, put_eq fun other mem same => ?_]
      -- a field under this key would have these ids, and there is none
      have absent := find?_eq_none.mp missing other mem
      exact absent (decide_eq_true (free.resolve_left unknown other mem same))
  | createVertexVectorIndex index =>
    obtain ⟨-, ⟨known, rfl⟩ | ⟨unknown, -, -, -, rfl⟩⟩ := applyCreateVertexVectorIndex_eq_ok.mp applied
    · exact if_pos known
    · rw [store, if_neg (by simpa [MetaInfo.Known] using unknown), put_eq]
      simpa [getVertexVectorIndex] using unknown
  | _ => exact Except.ok.inj applied

variable {request : Request} {shared : SharedLog Nat Entry} {replica : Replica} {cluster : Cluster}

/-- The catalog of a replica is that of the applied log up to build states, and
the disk has the same records. -/
structure ReplicaOk (libraries : Libraries) (shared : SharedLog Nat Entry) (replica : Replica) : Prop where
  within : replica.applied ≤ shared.committed
  info : replica.info.fresh = catalog libraries (shared.log.take replica.applied)
  stored : replica.stored = replica.info
  posted : ∀ proposal ∈ replica.posted, proposal.entry.request.WellMade

structure Ok (libraries : Libraries) (cluster : Cluster) : Prop where
  replicas : ∀ node, ReplicaOk libraries cluster.shared (cluster.replicas node)
  grown : cluster.shared.AllGrown (Allowed libraries)
  quiet : cluster.thrown = []

theorem Ok.init : Ok libraries Cluster.init :=
  ⟨fun _ => ⟨le_rfl, rfl, rfl, forall_mem_nil _⟩, .empty, rfl⟩

section

variable (ok : ReplicaOk libraries shared replica)
include ok

theorem ReplicaOk.keeps {next : SharedLog Nat Entry}
    (committed : shared.committed ≤ next.committed)
    (same : next.log.take replica.applied = shared.log.take replica.applied) : ReplicaOk libraries next replica :=
  ⟨ok.within.trans committed, same ▸ ok.info, ok.stored, ok.posted⟩

theorem ReplicaOk.call (tokens : Tokens) (call : Call) (sent : List String) :
    ReplicaOk libraries shared (replica.call tokens call sent) := by
  unfold Replica.call
  split
  next request proposed =>
    exact ⟨ok.within, ok.info, ok.stored, forall_mem_snoc ok.posted (propose_wellMade proposed)⟩
  · exact ok

theorem ReplicaOk.setState (kind : IndexKind) (name : String) (state : BuildState) :
    ReplicaOk libraries shared (replica.setState kind name state) := by
  refine ⟨ok.within, ?_, ?_, ok.posted⟩
  · refine Eq.trans ?_ ok.info
    cases kind <;> simp only [Replica.setState, IndexDdl.setState, MetaInfo.fresh, List.map_map, MetaInfo.mk.injEq,
        and_true, true_and] <;>
      · refine map_congr_left fun index _ => ?_
        by_cases named : index.name = name <;> simp [named]
  · rw [Replica.setState, ok.stored]

theorem ReplicaOk.restart : ReplicaOk libraries shared replica.restart := by
  refine ⟨ok.within, ?_, rfl, forall_mem_nil _⟩
  rw [Replica.restart, ok.stored]
  exact ok.info

end

theorem known_fresh {info : MetaInfo} (known : info.fresh.Known request) : info.Known request := by
  cases request with
  | deleteVertexPropertyIndex | deleteEdgePropertyIndex | deleteVertexFullTextIndex | deleteVertexVectorIndex =>
    exact trivial
  | _ => simpa [MetaInfo.Known, fresh, getVertexFullTextIndex, getVertexVectorIndex, getVertexVectorField,
      propertyIndexByName, find?_map] using known

section

variable (ok : Ok libraries cluster)
include ok

theorem Ok.accepts {node : Nat} {entry : Entry}
    (found : cluster.shared.committedLog[(cluster.replicas node).applied]? = some entry) :
    ∃ next, applyEntry libraries (cluster.replicas node).info entry = .ok next ∧
      ReplicaOk libraries cluster.shared ((cluster.replicas node).afterApply entry.request next) := by
  have holds := ok.replicas node
  obtain ⟨inside, inLog⟩ := SharedLog.getElem?_committedLog.mp found
  have split := take_append_drop (cluster.replicas node).applied cluster.shared.log
  rw [drop_eq_getElem?_toList_append, inLog] at split
  obtain ⟨⟨next, accepted⟩, free⟩ := ok.grown.log _ _ _ split.symm
  rw [← holds.info] at accepted free
  obtain ⟨texts, carried⟩ := applyEntry_eq_ok.mp accepted
  obtain ⟨result, applied, same⟩ := apply_of_fresh carried
  refine ⟨result, applyEntry_eq_ok.mpr ⟨texts, applied⟩, inside, ?_, ?_, holds.posted⟩
  · change result.fresh = catalog libraries (cluster.shared.log.take ((cluster.replicas node).applied + 1))
    rw [holds.info] at accepted
    rw [take_add_one, inLog, same, catalog, foldl_append]
    change next = replayEntry libraries (catalog libraries _) entry
    rw [replayEntry, accepted]
  · rw [Replica.afterApply, holds.stored]
    exact store_eq (free.imp_left known_fresh) applied

theorem Ok.setReplica {node : Nat} (holds : ReplicaOk libraries cluster.shared replica) :
    Ok libraries (cluster.setReplica node replica) := by
  refine ⟨?_, ok.grown, ok.quiet⟩
  refine (Function.forall_update_iff _ fun _ => ReplicaOk libraries cluster.shared).mpr ?_
  exact ⟨holds, fun other _ => ok.replicas other⟩

theorem Ok.follows (follows : cluster.shared.Follows shared) : Ok libraries { cluster with shared } :=
  ⟨fun node => (ok.replicas node).keeps follows.committed_le (follows.take_eq _ (ok.replicas node).within),
    ok.grown.follows follows, ok.quiet⟩

theorem Ok.post {node position : Nat} {proposal : Proposal} {onto : Option (List Entry)}
    (found : (cluster.replicas node).posted[position]? = some proposal)
    (landed : cluster.shared.Posted shared onto proposal.entry)
    (fits : ∀ log ∈ onto, Fits libraries (catalog libraries log) proposal) :
    Ok libraries (cluster.post node position shared) := by
  have holds := ok.replicas node
  have made := holds.posted proposal (mem_of_getElem? found)
  have left : ReplicaOk libraries cluster.shared { cluster.replicas node with
      posted := (cluster.replicas node).posted.eraseIdx position } :=
    ⟨holds.within, holds.info, holds.stored, fun other mem => holds.posted other (mem_of_mem_eraseIdx mem)⟩
  have moved : Ok libraries (cluster.setReplica node _) := ok.setReplica left
  refine ⟨fun other => ?_, SharedLog.AllGrown.posted landed ok.grown fun log given =>
    (fits log given).allowed made, ok.quiet⟩
  exact (moved.replicas other).keeps (le_of_eq landed.committed.symm)
    (landed.take_eq _ (moved.replicas other).within)

theorem Ok.step {next : Cluster} {action : Action} (valid : revalidated libraries cluster action)
    (taken : cluster.step libraries action = some next) : Ok libraries next := by
  cases action with
  | elect node branch =>
    obtain ⟨shared, elected, rfl⟩ := map_eq_some_iff.mp taken
    exact ok.follows (SharedLog.elect_follows elected)
  | commit upto =>
    obtain ⟨shared, done, rfl⟩ := map_eq_some_iff.mp taken
    exact ok.follows (SharedLog.commit_follows done)
  | call node tokens call sent =>
    cases taken
    exact ok.setReplica ((ok.replicas node).call tokens call sent)
  | append node position =>
    obtain ⟨-, taken⟩ := ite_none_right_eq_some.mp taken
    obtain ⟨proposal, found, rfl⟩ := map_eq_some_iff.mp taken
    exact ok.post found (SharedLog.append_posted ..) (by rintro _ ⟨⟩; exact valid proposal found)
  | fork node position branch =>
    obtain ⟨proposal, found, taken⟩ := bind_eq_some_iff.mp taken
    obtain ⟨shared, forked, rfl⟩ := map_eq_some_iff.mp taken
    exact ok.post found (SharedLog.fork_posted forked) (by rintro _ ⟨⟩; exact valid proposal found)
  | apply node =>
    obtain ⟨entry, found, rfl⟩ := map_eq_some_iff.mp taken
    obtain ⟨info, applied, holds⟩ := ok.accepts found
    simp only [applied]
    exact ok.setReplica holds
  | setState node kind name state =>
    cases taken
    exact ok.setReplica ((ok.replicas node).setState kind name state)
  | restart node =>
    cases taken
    exact ok.setReplica (ok.replicas node).restart
  | install node source =>
    cases taken
    exact ok.setReplica (ok.replicas source).restart

end

/-- In every run whose entries are appended where their calls would still be
accepted, applying the log never throws. -/
theorem thrown_eq_nil_of_revalidated {actions : List Action} {cluster : Cluster}
    (run : Runs (step libraries) (revalidated libraries) Cluster.init actions cluster) : cluster.thrown = [] :=
  (run.invariant (Ok libraries) .init fun _ _ _ ok valid => ok.step valid).quiet

/-! ### Fixed names -/

/-- Label `a` and property `p` have the id 1, all others 2. -/
def fixedTokens : Tokens where
  createLid name := .ok (if name = "a" then 1 else 2)
  createTid name := .ok (if name = "a" then 1 else 2)
  createPid name := .ok (if name = "p" then 1 else 2)
  knownLid name := some (if name = "a" then 1 else 2)
  knownPid name := some (if name = "p" then 1 else 2)

/-- The byte 255 is not a text, all others are, and every list of fields is taken. -/
def fixedLibraries : Libraries := ⟨fun text => text ≠ "ÿ", fun _ => true⟩

/-- A call on node 1, appended, committed and applied there. -/
def carriedOut (call : Call) (length : Nat) : List Action :=
  [.call 1 fixedTokens call [], .append 1 0, .commit length, .apply 1]

/-- A label is given twice. -/
def doubledRun : List Action :=
  .elect 1 [] :: carriedOut (.addVertexFullTextIndex "text" ["a", "a"] ["p"]) 1

/-- The name of an index is not a text. -/
def garbledRun : List Action := .elect 1 [] :: carriedOut (.addVertexPropertyIndex "ÿ" false "a" ["p"]) 1

/-- The build fails on the leader and goes on elsewhere. -/
def failedRun : List Action :=
  .elect 1 [] :: carriedOut (.addVertexPropertyIndex "keys" true "a" ["p"]) 1 ++
    .setState 1 .vertexProperty "keys" .failed :: carriedOut (.addVertexVectorField "a" "p" 8) 2 ++ [.apply 2, .apply 2]

/-- An accepted full-text index with a repeated label, an accepted name that
cannot be read back, and a vector field accepted because a build had failed on
the leader: each of them throws when it is applied. -/
theorem apply_throws :
    (∃ cluster, Runs (step fixedLibraries) anyAction Cluster.init doubledRun cluster ∧ cluster.thrown ≠ []) ∧
    (∃ cluster, Runs (step fixedLibraries) anyAction Cluster.init garbledRun cluster ∧ cluster.thrown ≠ []) ∧
    ∃ cluster, Runs (step fixedLibraries) anyAction Cluster.init failedRun cluster ∧ cluster.thrown ≠ [] := by
  have throws {actions : List Action}
      (found : (execute (step fixedLibraries) anyAction Cluster.init actions).map
        (fun cluster => cluster.thrown.length) = some 1) :
      ∃ cluster, Runs (step fixedLibraries) anyAction Cluster.init actions cluster ∧ cluster.thrown ≠ [] := by
    obtain ⟨cluster, executed, one⟩ := map_eq_some_iff.mp found
    refine ⟨cluster, runs_of_execute executed, fun none => ?_⟩
    rw [none] at one
    cases one
  exact ⟨throws (by decide), throws (by decide), throws (by decide)⟩

/-- A vector field, an index on it and a property index of another property. -/
def orderlyRun : List Action :=
  .elect 1 [] :: carriedOut (.addVertexVectorField "a" "p" 8) 1 ++
    carriedOut (.addVertexVectorIndex "near" "a" "p" 8 "l2" 16 100) 2 ++
    carriedOut (.addVertexPropertyIndex "keys" true "a" ["q"]) 3 ++ [.apply 2, .apply 2, .apply 2]

theorem thrown_eq_nil_orderly :
    ∃ cluster, Runs (step fixedLibraries) (revalidated fixedLibraries) Cluster.init orderlyRun cluster ∧
      (cluster.replicas 2).applied = 3 ∧ cluster.thrown = [] := by
  have found : (execute (step fixedLibraries) (revalidated fixedLibraries) Cluster.init orderlyRun).map
      (fun cluster => (cluster.replicas 2).applied) = some 3 := by decide
  obtain ⟨cluster, executed, applied⟩ := map_eq_some_iff.mp found
  have run := runs_of_execute executed
  exact ⟨cluster, run, applied, thrown_eq_nil_of_revalidated run⟩

/-- Replicas that have applied as much of the log have the same catalog, whatever
has become of their builds, and one that starts again reads its catalog back. -/
theorem catalogs_agree_of_revalidated {actions : List Action} {cluster : Cluster}
    (run : Runs (step libraries) (revalidated libraries) Cluster.init actions cluster) {first second : Nat}
    (same : (cluster.replicas first).applied = (cluster.replicas second).applied) :
    (cluster.replicas first).info.fresh = (cluster.replicas second).info.fresh ∧
      (cluster.replicas first).restart.info = (cluster.replicas first).info := by
  have ok := run.invariant (Ok libraries) .init fun _ _ _ ok valid => ok.step valid
  have left := ok.replicas first
  exact ⟨left.info.trans (same ▸ (ok.replicas second).info.symm), left.stored⟩

theorem catalogs_agree_orderly :
    ∃ cluster, Runs (step fixedLibraries) (revalidated fixedLibraries) Cluster.init orderlyRun cluster ∧
      (cluster.replicas 1).info.vectorIndexes.length = 1 ∧
      (cluster.replicas 1).info.fresh = (cluster.replicas 2).info.fresh ∧
      (cluster.replicas 1).restart.info = (cluster.replicas 1).info := by
  have found : (execute (step fixedLibraries) (revalidated fixedLibraries) Cluster.init orderlyRun).map
      (fun cluster => ((cluster.replicas 1).info.vectorIndexes.length,
        decide ((cluster.replicas 1).applied = (cluster.replicas 2).applied))) = some (1, true) := by decide
  obtain ⟨cluster, executed, facts⟩ := map_eq_some_iff.mp found
  obtain ⟨one, same⟩ := Prod.mk.inj facts
  have run := runs_of_execute executed
  exact ⟨cluster, run, one, catalogs_agree_of_revalidated run (of_decide_eq_true same)⟩

end Cluster

end RocksGraph.IndexDdl
