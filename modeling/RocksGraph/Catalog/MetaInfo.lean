import Mathlib.Data.List.Sort
import RocksGraph.Foundation.Check

/-! The index catalog of a graph and the index definitions that change it
(`meta_info.cc`, `graph_db_property_index.cc`, `graph_db_search_index.cc`).

Every definition is checked twice: by the call that proposes it, against the
catalog of the proposing process, and by `Apply` when the entry comes back from
the log. Index contents, paths and key ranges are left out: no check reads them. -/

set_option autoImplicit false

namespace RocksGraph.Catalog

open Foundation List Option

inductive ErrorCode where
  | invalidParameter
  | vertexIndexAlreadyExists
  | edgePropertyIndexAlreadyExists
  | vertexFullTextIndexAlreadyExists
  | vertexVectorIndexAlreadyExists
  | vertexUniqueIndexNotFound
  | edgePropertyIndexNotFound
  | fullTextIndexNotFound
  | vectorIndexNotFound
  | notLeader
  | raftUnavailable
  | storageEngineError
  deriving DecidableEq, Repr

structure Error where
  code : ErrorCode
  message : String
  deriving DecidableEq, Repr

/-- `RG_THROW` with this code and no text. -/
def Error.plain : Error := ⟨.invalidParameter, "Invalid parameter."⟩

def Error.invalid (message : String) : Error := ⟨.invalidParameter, message⟩

inductive BuildState where
  | building
  | catchingUp
  | ready
  | failed
  deriving DecidableEq, Repr

/-- `meta::VertexPropertyIndex` and `meta::EdgePropertyIndex`; the owner is the
label or the edge type. -/
structure PropertyIndex where
  name : String
  isUnique : Bool
  owner : String
  ownerId : Nat
  indexId : Nat
  properties : List String
  propertyIds : List Nat
  state : BuildState
  deriving DecidableEq, Repr

structure FullTextIndex where
  name : String
  labels : List String
  properties : List String
  labelIds : List Nat
  propertyIds : List Nat
  indexId : Nat
  state : BuildState
  deriving DecidableEq, Repr

structure VectorField where
  label : String
  labelId : Nat
  property : String
  propertyId : Nat
  dimensions : Nat
  deriving DecidableEq, Repr

inductive DistanceType where
  | l2
  | ip
  deriving DecidableEq, Repr

structure VectorIndex where
  name : String
  label : String
  labelId : Nat
  property : String
  propertyId : Nat
  dimensions : Nat
  distanceType : DistanceType
  hnswM : Nat
  hnswEfConstruction : Nat
  indexId : Nat
  state : BuildState
  deriving DecidableEq, Repr

/-- `MetaInfo`. The ready and the building maps are one list, and the map by
label and properties is a lookup in it. -/
structure MetaInfo where
  vertexPropertyIndexes : List PropertyIndex
  edgePropertyIndexes : List PropertyIndex
  fullTextIndexes : List FullTextIndex
  vectorFields : List VectorField
  vectorIndexes : List VectorIndex
  deriving DecidableEq, Repr

def schemaKey (ownerId : Nat) (pids : List Nat) : Nat × List Nat :=
  (ownerId, pids.insertionSort (· ≤ ·))

def PropertyIndex.key (index : PropertyIndex) : Nat × List Nat := schemaKey index.ownerId index.propertyIds

def propertyIndexByName (indexes : List PropertyIndex) (name : String) : Option PropertyIndex :=
  indexes.find? fun index => index.name = name

def propertyIndexByKey (indexes : List PropertyIndex) (ownerId : Nat) (pids : List Nat) : Option PropertyIndex :=
  indexes.find? fun index => index.key = schemaKey ownerId pids

namespace MetaInfo

def empty : MetaInfo := ⟨[], [], [], [], []⟩

variable (info : MetaInfo)

def getVertexFullTextIndex (name : String) : Option FullTextIndex :=
  info.fullTextIndexes.find? fun index => index.name = name

def getVertexVectorField (lid pid : Nat) : Option VectorField :=
  info.vectorFields.find? fun field => field.labelId = lid ∧ field.propertyId = pid

def getVertexVectorIndex (name : String) : Option VectorIndex :=
  info.vectorIndexes.find? fun index => index.name = name

def getVertexVectorIndexOf (lid pid : Nat) : Option VectorIndex :=
  info.vectorIndexes.find? fun index => index.labelId = lid ∧ index.propertyId = pid

def checkNoVectorFieldForNormalIndex (lids pids : List Nat) (indexName : String) :
    Except Error Unit :=
  forM lids fun lid => forM pids fun pid =>
    match info.getVertexVectorField lid pid with
    | some field =>
      let label := field.label
      let property := field.property
      .error (.invalid
        s!"normal index [{indexName}] can not use vector field [label:{label}, property:{property}]")
    | none => .ok ()

/-- `CheckNoNormalIndexForVectorField`. Indexes whose build failed do not count. -/
def checkNoNormalIndexForVectorField (lid pid : Nat) (label property : String) :
    Except Error Unit := do
  forM info.vertexPropertyIndexes fun index =>
    let name := index.name
    check (index.state = .failed ∨ ¬ (index.ownerId = lid ∧ pid ∈ index.propertyIds)) (.invalid
      s!"vector field [label:{label}, property:{property}] can not use normal index [{name}]")
  forM info.fullTextIndexes fun index =>
    let name := index.name
    check (index.state = .failed ∨ ¬ (lid ∈ index.labelIds ∧ pid ∈ index.propertyIds)) (.invalid
      s!"vector field [label:{label}, property:{property}] can not use normal index [{name}]")

end MetaInfo

/-- What the id generator of the proposing process answers during a call: the
outcome of finding or creating an id, and the ids that are known. -/
structure Tokens where
  createLid : String → Except Error Nat
  createTid : String → Except Error Nat
  createPid : String → Except Error Nat
  knownLid : String → Option Nat
  knownPid : String → Option Nat

variable {properties : List String}

namespace Tokens

def getOrCreateLid (tokens : Tokens) (name : String) : Except Error Nat := do
  check (name ≠ "") (.invalid "label name is empty")
  tokens.createLid name

def getOrCreateTid (tokens : Tokens) (name : String) : Except Error Nat := do
  check (name ≠ "") (.invalid "edge type is empty")
  tokens.createTid name

def getOrCreatePid (tokens : Tokens) (name : String) : Except Error Nat := do
  check (name ≠ "") (.invalid "property name is empty")
  tokens.createPid name

/-- The loop over the properties of a property index; `pids` are those before. -/
def resolvePids (tokens : Tokens) (indexName : String) : List String → List Nat → Except Error (List Nat)
  | [], pids => .ok pids
  | property :: rest, pids => do
    check (property ≠ "") .plain
    let pid ← tokens.getOrCreatePid property
    check (pid ∉ pids) (.invalid s!"Duplicate property [{property}] in index [{indexName}]")
    tokens.resolvePids indexName rest (pids ++ [pid])

theorem length_resolvePids {tokens : Tokens} {indexName : String}
    {pids result : List Nat} (resolved : tokens.resolvePids indexName properties pids = .ok result) :
    result.length = pids.length + properties.length := by
  induction properties generalizing pids with
  | nil =>
    cases resolved
    rfl
  | cons property rest ih =>
    simp only [resolvePids, bind_eq_ok, check_eq_ok, exists_const] at resolved
    obtain ⟨-, pid, -, -, resolved⟩ := resolved
    rw [ih resolved, length_append, length_singleton, length_cons, Nat.add_assoc, Nat.add_comm 1]

end Tokens

structure PropertyIndexKind where
  alreadyExists : ErrorCode
  nameTaken : String → String
  keyTaken : Nat → Nat → String
  countMismatch : String → Nat → Nat → String

def vertexIndexKind : PropertyIndexKind where
  alreadyExists := .vertexIndexAlreadyExists
  nameTaken name := s!"Vertex index name {name} already exists"
  keyTaken lid count := s!"Vertex index [label:{lid}, property_count:{count}] already exists"
  countMismatch name ids count :=
    s!"vertex property index [{name}] property id count {ids} does not match property count {count}"

def edgeIndexKind : PropertyIndexKind where
  alreadyExists := .edgePropertyIndexAlreadyExists
  nameTaken name := s!"Edge property index name {name} already exists"
  keyTaken tid count := s!"Edge property index [type:{tid}, property_count:{count}] already exists"
  countMismatch name ids count :=
    s!"edge property index [{name}] property id count {ids} does not match property count {count}"

section PropertyIndexes

variable (kind : PropertyIndexKind) (indexes : List PropertyIndex)
  (noVectorField : Nat → List Nat → String → Except Error Unit)

/-- The part of `AddVertexPropertyIndex` and `AddEdgePropertyIndex` before the
proposal. -/
def addPropertyIndex (tokens : Tokens) (getOwnerId : String → Except Error Nat) (indexId : Nat)
    (indexName : String) (unique : Bool) (owner : String) (properties : List String) :
    Except Error PropertyIndex := do
  check (indexName ≠ "" ∧ owner ≠ "" ∧ properties ≠ []) .plain
  check ((propertyIndexByName indexes indexName).isNone) ⟨kind.alreadyExists, kind.nameTaken indexName⟩
  let ownerId ← getOwnerId owner
  let pids ← tokens.resolvePids indexName properties []
  noVectorField ownerId pids indexName
  check ((propertyIndexByKey indexes ownerId pids).isNone)
    ⟨kind.alreadyExists, kind.keyTaken ownerId pids.length⟩
  return ⟨indexName, unique, owner, ownerId, indexId, properties, pids, .building⟩

/-- `ApplyCreateVertexPropertyIndex` and `ApplyCreateEdgePropertyIndex` for an
entry of the log: a name that is there already is passed over. -/
def applyCreatePropertyIndex (index : PropertyIndex) : Except Error (List PropertyIndex) := do
  check (index.name ≠ "" ∧ index.owner ≠ "" ∧ index.properties ≠ []) .plain
  if (propertyIndexByName indexes index.name).isSome then return indexes
  else
    check (index.propertyIds.length = index.properties.length)
      (.invalid (kind.countMismatch index.name index.propertyIds.length index.properties.length))
    noVectorField index.ownerId index.propertyIds index.name
    check ((propertyIndexByKey indexes index.ownerId index.propertyIds).isNone)
      ⟨kind.alreadyExists, kind.keyTaken index.ownerId index.propertyIds.length⟩
    return indexes ++ [{ index with state := .building }]

def applyDeletePropertyIndex (name : String) : List PropertyIndex :=
  indexes.filter fun index => index.name ≠ name

def PropertyIndex.WellMade (index : PropertyIndex) : Prop :=
  (index.name ≠ "" ∧ index.owner ≠ "" ∧ index.properties ≠ []) ∧
    index.propertyIds.length = index.properties.length

variable {kind indexes noVectorField}

theorem addPropertyIndex_eq_ok {tokens : Tokens} {getOwnerId : String → Except Error Nat} {indexId : Nat}
    {indexName : String} {unique : Bool} {owner : String} {index : PropertyIndex}
    (added : addPropertyIndex kind indexes noVectorField tokens getOwnerId indexId indexName unique owner
      properties = .ok index) :
    index.WellMade ∧ noVectorField index.ownerId index.propertyIds index.name = .ok () ∧
      propertyIndexByKey indexes index.ownerId index.propertyIds = none := by
  simp only [addPropertyIndex, bind_eq_ok, check_eq_ok, exists_const, isNone_iff_eq_none]
    at added
  obtain ⟨given, -, ownerId, -, pids, resolved, done, fits, missing, made⟩ := added
  cases made
  refine ⟨⟨given, ?_⟩, fits, missing⟩
  rw [Tokens.length_resolvePids resolved, length_nil, Nat.zero_add]

theorem applyCreatePropertyIndex_eq_ok {index : PropertyIndex} {result : List PropertyIndex} :
    applyCreatePropertyIndex kind indexes noVectorField index = .ok result ↔
      (index.name ≠ "" ∧ index.owner ≠ "" ∧ index.properties ≠ []) ∧
        ((propertyIndexByName indexes index.name).isSome ∧ result = indexes ∨
          (propertyIndexByName indexes index.name).isNone ∧
            index.propertyIds.length = index.properties.length ∧
            noVectorField index.ownerId index.propertyIds index.name = .ok () ∧
            (propertyIndexByKey indexes index.ownerId index.propertyIds).isNone ∧
            result = indexes ++ [{ index with state := .building }]) := by
  simp only [applyCreatePropertyIndex, bind_eq_ok, check_eq_ok, exists_const]
  refine and_congr_right fun _ => ?_
  cases propertyIndexByName indexes index.name with
  | some known => simp [pure_eq_ok]
  | none => simp only [isSome_none, isNone_none, Bool.false_eq_true, if_false, false_and, false_or, true_and,
      check_bind_eq_ok, check_eq_ok, pure_eq_ok]

end PropertyIndexes

/-! ## What is proposed and applied -/

inductive Call where
  | addVertexPropertyIndex (indexName : String) (unique : Bool) (label : String) (properties : List String)
  | deleteVertexPropertyIndex (indexName : String)
  | addEdgePropertyIndex (indexName : String) (unique : Bool) (edgeType : String) (properties : List String)
  | deleteEdgePropertyIndex (indexName : String)
  | addVertexFullTextIndex (indexName : String) (labels properties : List String)
  | deleteVertexFullTextIndex (indexName : String)
  | addVertexVectorField (label property : String) (dimension : Int)
  | addVertexVectorIndex (indexName label property : String) (dimension : Int) (distanceType : String)
      (hnswM hnswEfConstruction : Int)
  | deleteVertexVectorIndex (indexName : String)
  deriving DecidableEq, Repr

/-- `meta::GraphIndexDdlRequest`: the operation and its payload. Of the payload
of a deletion only the name is read. -/
inductive Request where
  | createVertexPropertyIndex (index : PropertyIndex)
  | deleteVertexPropertyIndex (name : String)
  | createEdgePropertyIndex (index : PropertyIndex)
  | deleteEdgePropertyIndex (name : String)
  | createVertexFullTextIndex (index : FullTextIndex)
  | deleteVertexFullTextIndex (name : String)
  | createVertexVectorField (field : VectorField)
  | createVertexVectorIndex (index : VectorIndex)
  | deleteVertexVectorIndex (name : String)
  deriving DecidableEq, Repr

namespace Request

def WellMade : Request → Prop
  | .createVertexPropertyIndex index | .createEdgePropertyIndex index => index.WellMade
  | .createVertexFullTextIndex index => index.name ≠ "" ∧ index.labels ≠ [] ∧ index.properties ≠ []
  | .createVertexVectorField field =>
    (field.label ≠ "" ∧ field.property ≠ "") ∧ 1 ≤ field.dimensions ∧ field.dimensions ≤ 4096
  | .createVertexVectorIndex index => index.name ≠ "" ∧ index.label ≠ "" ∧ index.property ≠ ""
  | _ => True

/-- A full-text index names no label and no property twice, under any name, and
its properties can be the fields of a text index. -/
def FullTextFits (schema : List String → Bool) : Request → Prop
  | .createVertexFullTextIndex index =>
    (index.labelIds.length = index.labels.length ∧ index.propertyIds.length = index.properties.length) ∧
      schema ("id" :: index.properties) = true
  | _ => True

instance (schema : List String → Bool) (request : Request) : Decidable (request.FullTextFits schema) := by
  unfold FullTextFits
  split <;> infer_instance

end Request

namespace MetaInfo

def addVertexPropertyIndex (info : MetaInfo) (tokens : Tokens) (indexId : Nat) (indexName : String)
    (unique : Bool) (label : String) (properties : List String) : Except Error PropertyIndex :=
  addPropertyIndex vertexIndexKind info.vertexPropertyIndexes
    (fun lid pids => info.checkNoVectorFieldForNormalIndex [lid] pids) tokens tokens.getOrCreateLid indexId
    indexName unique label properties

def addEdgePropertyIndex (info : MetaInfo) (tokens : Tokens) (indexId : Nat) (indexName : String)
    (unique : Bool) (edgeType : String) (properties : List String) : Except Error PropertyIndex :=
  addPropertyIndex edgeIndexKind info.edgePropertyIndexes (fun _ _ _ => .ok ()) tokens tokens.getOrCreateTid
    indexId indexName unique edgeType properties

/-- The ids are collected in sets, the names are kept as they come. -/
def addVertexFullTextIndex (info : MetaInfo) (tokens : Tokens) (indexId : Nat) (indexName : String)
    (labels properties : List String) : Except Error FullTextIndex := do
  check (indexName ≠ "" ∧ labels ≠ [] ∧ properties ≠ []) .plain
  check ((info.getVertexFullTextIndex indexName).isNone)
    ⟨.vertexFullTextIndexAlreadyExists, s!"Vertex fulltext index [{indexName}] already exists"⟩
  let lids ← labels.mapM tokens.getOrCreateLid
  let pids ← properties.mapM tokens.getOrCreatePid
  info.checkNoVectorFieldForNormalIndex lids.dedup pids.dedup indexName
  return ⟨indexName, labels, properties, lids.dedup, pids.dedup, indexId, .building⟩

def dimensionText : String := "dimension should be an integer in the range [1, 4096]"

def addVertexVectorField (info : MetaInfo) (tokens : Tokens) (label property : String) (dimension : Int) :
    Except Error VectorField := do
  check (label ≠ "" ∧ property ≠ "") .plain
  check (1 ≤ dimension ∧ dimension ≤ 4096) (.invalid dimensionText)
  let lid ← tokens.getOrCreateLid label
  let pid ← tokens.getOrCreatePid property
  check ((info.getVertexVectorField lid pid).isNone)
    (.invalid s!"Vector field [label:{label}, property:{property}] already exists")
  info.checkNoNormalIndexForVectorField lid pid label property
  return ⟨label, lid, property, pid, dimension.toNat⟩

def parseDistanceType (text : String) : Except Error DistanceType :=
  if text = "l2" then .ok .l2
  else if text = "ip" then .ok .ip
  else .error (.invalid s!"Distance Type {text} not supported")

def notDefined (label property : String) : Error :=
  .invalid s!"Vector field [label:{label}, property:{property}] is not defined"

def dimensionMismatch (label property : String) (expected actual : Nat) : Error :=
  .invalid s!"Vector field [label:{label}, property:{property}] dimension mismatch, expect {expected}, actual {actual}"

def orThrow {Value : Type} (value : Option Value) (error : Error) : Except Error Value :=
  match value with
  | some value => .ok value
  | none => .error error

def addVertexVectorIndex (info : MetaInfo) (tokens : Tokens) (indexId : Nat)
    (indexName label property : String) (dimension : Int) (distanceType : String)
    (hnswM hnswEfConstruction : Int) : Except Error VectorIndex := do
  check (indexName ≠ "" ∧ label ≠ "" ∧ property ≠ "") .plain
  check (1 ≤ dimension ∧ dimension ≤ 4096) (.invalid dimensionText)
  check (5 ≤ hnswM ∧ hnswM ≤ 64) (.invalid "hnsw.m should be an integer in the range [5, 64]")
  check (hnswM ≤ hnswEfConstruction ∧ hnswEfConstruction ≤ 1000)
    (.invalid "hnsw.efConstruction should be an integer in the range [hnsw.m,1000]")
  let distance ← parseDistanceType distanceType
  check ((info.getVertexVectorIndex indexName).isNone)
    ⟨.vertexVectorIndexAlreadyExists, s!"Vertex vector index [{indexName}] already exists"⟩
  let lid ← orThrow (tokens.knownLid label) (notDefined label property)
  let pid ← orThrow (tokens.knownPid property) (notDefined label property)
  let field ← orThrow (info.getVertexVectorField lid pid) (notDefined label property)
  check (field.dimensions = dimension.toNat) (dimensionMismatch label property field.dimensions dimension.toNat)
  check ((info.getVertexVectorIndexOf lid pid).isNone)
    ⟨.vertexVectorIndexAlreadyExists, s!"Vertex vector index [label:{lid}, property:{pid}] already exists"⟩
  info.checkNoNormalIndexForVectorField lid pid label property
  return ⟨indexName, label, lid, property, pid, dimension.toNat, distance, hnswM.toNat, hnswEfConstruction.toNat,
    indexId, .building⟩

def deleteIndex {Index : Type} (found : Option Index) (name : String) (code : ErrorCode) (text : String) :
    Except Error String := do
  check found.isSome ⟨code, text⟩
  return name

/-- The part of a call before `ProposeGraphIndexDdl`. -/
def propose (info : MetaInfo) (tokens : Tokens) (indexId : Nat) : Call → Except Error Request
  | .addVertexPropertyIndex name unique label properties =>
    (info.addVertexPropertyIndex tokens indexId name unique label properties).map .createVertexPropertyIndex
  | .deleteVertexPropertyIndex name =>
    (deleteIndex (propertyIndexByName info.vertexPropertyIndexes name) name .vertexUniqueIndexNotFound
      s!"No such vertex index [{name}]").map .deleteVertexPropertyIndex
  | .addEdgePropertyIndex name unique edgeType properties =>
    (info.addEdgePropertyIndex tokens indexId name unique edgeType properties).map .createEdgePropertyIndex
  | .deleteEdgePropertyIndex name =>
    (deleteIndex (propertyIndexByName info.edgePropertyIndexes name) name .edgePropertyIndexNotFound
      s!"No such edge property index [{name}]").map .deleteEdgePropertyIndex
  | .addVertexFullTextIndex name labels properties =>
    (info.addVertexFullTextIndex tokens indexId name labels properties).map .createVertexFullTextIndex
  | .deleteVertexFullTextIndex name =>
    (deleteIndex (info.getVertexFullTextIndex name) name .fullTextIndexNotFound
      s!"No such vertex fulltext index [{name}]").map .deleteVertexFullTextIndex
  | .addVertexVectorField label property dimension =>
    (info.addVertexVectorField tokens label property dimension).map .createVertexVectorField
  | .addVertexVectorIndex name label property dimension distanceType hnswM hnswEfConstruction =>
    (info.addVertexVectorIndex tokens indexId name label property dimension distanceType hnswM
      hnswEfConstruction).map .createVertexVectorIndex
  | .deleteVertexVectorIndex name =>
    (deleteIndex (info.getVertexVectorIndex name) name .vectorIndexNotFound
      s!"No such vertex vector index [{name}]").map .deleteVertexVectorIndex

section Apply

-- The schema builder of the text index library takes the fields or panics.
variable (schema : List String → Bool)

/-- `new_ftindex`: the field for the vertex id comes before the properties. -/
def newFtindex (properties : List String) : Except Error Unit :=
  check (schema ("id" :: properties) = true) (.invalid "fulltext index schema is not accepted")

def applyCreateVertexFullTextIndex (info : MetaInfo) (index : FullTextIndex) : Except Error MetaInfo := do
  check (index.name ≠ "" ∧ index.labels ≠ [] ∧ index.properties ≠ []) .plain
  if (info.getVertexFullTextIndex index.name).isSome then return info
  else
    let name := index.name
    check (index.labelIds.length = index.labels.length ∧ index.propertyIds.length = index.properties.length)
      (.invalid s!"vertex fulltext index [{name}] id counts do not match label or property counts")
    info.checkNoVectorFieldForNormalIndex index.labelIds index.propertyIds index.name
    newFtindex schema index.properties
    return { info with fullTextIndexes := info.fullTextIndexes ++ [{ index with state := .building }] }

def applyCreateVertexVectorField (info : MetaInfo) (field : VectorField) : Except Error MetaInfo := do
  check (field.label ≠ "" ∧ field.property ≠ "") .plain
  check (1 ≤ field.dimensions ∧ field.dimensions ≤ 4096) (.invalid dimensionText)
  match info.getVertexVectorField field.labelId field.propertyId with
  | some existing =>
    let label := field.label
    let property := field.property
    check (existing.dimensions = field.dimensions)
      (.invalid s!"Vector field [label:{label}, property:{property}] already exists")
    return info
  | none =>
    info.checkNoNormalIndexForVectorField field.labelId field.propertyId field.label field.property
    return { info with vectorFields := info.vectorFields ++ [field] }

def applyCreateVertexVectorIndex (info : MetaInfo) (index : VectorIndex) : Except Error MetaInfo := do
  check (index.name ≠ "" ∧ index.label ≠ "" ∧ index.property ≠ "") .plain
  if (info.getVertexVectorIndex index.name).isSome then return info
  else
    let lid := index.labelId
    let pid := index.propertyId
    check ((info.getVertexVectorIndexOf lid pid).isNone)
      ⟨.vertexVectorIndexAlreadyExists, s!"Vertex vector index [label:{lid}, property:{pid}] already exists"⟩
    info.checkNoNormalIndexForVectorField lid pid index.label index.property
    let field ← orThrow (info.getVertexVectorField lid pid) (notDefined index.label index.property)
    check (field.dimensions = index.dimensions)
      (dimensionMismatch index.label index.property field.dimensions index.dimensions)
    return { info with vectorIndexes := info.vectorIndexes ++ [{ index with state := .building }] }

def apply (info : MetaInfo) : Request → Except Error MetaInfo
  | .createVertexPropertyIndex index =>
    (applyCreatePropertyIndex vertexIndexKind info.vertexPropertyIndexes
      (fun lid pids => info.checkNoVectorFieldForNormalIndex [lid] pids) index).map fun vertexPropertyIndexes =>
        { info with vertexPropertyIndexes }
  | .deleteVertexPropertyIndex name =>
    .ok { info with vertexPropertyIndexes := applyDeletePropertyIndex info.vertexPropertyIndexes name }
  | .createEdgePropertyIndex index =>
    (applyCreatePropertyIndex edgeIndexKind info.edgePropertyIndexes (fun _ _ _ => .ok ()) index).map
      fun edgePropertyIndexes => { info with edgePropertyIndexes }
  | .deleteEdgePropertyIndex name =>
    .ok { info with edgePropertyIndexes := applyDeletePropertyIndex info.edgePropertyIndexes name }
  | .createVertexFullTextIndex index => info.applyCreateVertexFullTextIndex schema index
  | .deleteVertexFullTextIndex name =>
    .ok { info with fullTextIndexes := info.fullTextIndexes.filter fun index => index.name ≠ name }
  | .createVertexVectorField field => info.applyCreateVertexVectorField field
  | .createVertexVectorIndex index => info.applyCreateVertexVectorIndex index
  | .deleteVertexVectorIndex name =>
    .ok { info with vectorIndexes := info.vectorIndexes.filter fun index => index.name ≠ name }

end Apply

/-! ## When the checks pass -/

variable {info : MetaInfo} {schema : List String → Bool}

def NoNormalIndex (info : MetaInfo) (lid pid : Nat) : Prop :=
  (∀ index ∈ info.vertexPropertyIndexes,
    index.state = .failed ∨ ¬ (index.ownerId = lid ∧ pid ∈ index.propertyIds)) ∧
  ∀ index ∈ info.fullTextIndexes, index.state = .failed ∨ ¬ (lid ∈ index.labelIds ∧ pid ∈ index.propertyIds)

variable {indexName label property : String} {tokens : Tokens} {indexId : Nat} {request : Request} {next : MetaInfo}
  {indexes : List PropertyIndex} {noVectorField : Nat → List Nat → String → Except Error Unit}

theorem checkNoNormalIndexForVectorField_eq_ok {lid pid : Nat} {done : Unit} :
    info.checkNoNormalIndexForVectorField lid pid label property = .ok done ↔ info.NoNormalIndex lid pid := by
  simp only [checkNoNormalIndexForVectorField, bind_eq_ok, forM_eq_ok, check_eq_ok, exists_const, NoNormalIndex]

theorem orThrow_eq_ok {Value : Type} {value : Option Value} {error : Error} {result : Value} :
    orThrow value error = .ok result ↔ value = some result := by
  cases value <;> simp [orThrow]

theorem map_eq_ok {Value Result : Type} {action : Except Error Value} {make : Value → Result} {result : Result} :
    action.map make = .ok result ↔ ∃ value, action = .ok value ∧ make value = result := by
  cases action <;> simp [Except.map]

/-- The request is already carried out, so that `apply` passes it over. -/
def Known (info : MetaInfo) : Request → Prop
  | .createVertexPropertyIndex index => (propertyIndexByName info.vertexPropertyIndexes index.name).isSome
  | .createEdgePropertyIndex index => (propertyIndexByName info.edgePropertyIndexes index.name).isSome
  | .createVertexFullTextIndex index => (info.getVertexFullTextIndex index.name).isSome
  | .createVertexVectorField field =>
    ∃ existing ∈ info.getVertexVectorField field.labelId field.propertyId, existing.dimensions = field.dimensions
  | .createVertexVectorIndex index => (info.getVertexVectorIndex index.name).isSome
  | _ => True

instance (info : MetaInfo) (request : Request) : Decidable (info.Known request) := by
  unfold Known
  split <;> infer_instance

theorem addVertexFullTextIndex_eq_ok {labels : List String} {index : FullTextIndex}
    (added : info.addVertexFullTextIndex tokens indexId indexName labels properties = .ok index) :
    (index.name ≠ "" ∧ index.labels ≠ [] ∧ index.properties ≠ []) ∧
      info.checkNoVectorFieldForNormalIndex index.labelIds index.propertyIds index.name = .ok () := by
  simp only [addVertexFullTextIndex, bind_eq_ok, check_eq_ok, exists_const] at added
  obtain ⟨given, -, lids, -, pids, -, done, fits, made⟩ := added
  cases made
  exact ⟨given, fits⟩

variable {field : VectorField}

theorem addVertexVectorField_eq_ok {dimension : Int}
    (added : info.addVertexVectorField tokens label property dimension = .ok field) :
    ((field.label ≠ "" ∧ field.property ≠ "") ∧ 1 ≤ field.dimensions ∧ field.dimensions ≤ 4096) ∧
      info.getVertexVectorField field.labelId field.propertyId = none ∧
      info.NoNormalIndex field.labelId field.propertyId := by
  simp only [addVertexVectorField, bind_eq_ok, check_eq_ok, checkNoNormalIndexForVectorField_eq_ok,
    exists_const, isNone_iff_eq_none] at added
  obtain ⟨given, range, lid, -, pid, -, missing, fits, made⟩ := added
  cases made
  exact ⟨⟨given, by dsimp only; omega⟩, missing, fits⟩

theorem addVertexVectorIndex_eq_ok
    {dimension : Int} {distanceType : String} {hnswM hnswEfConstruction : Int} {index : VectorIndex}
    (added : info.addVertexVectorIndex tokens indexId indexName label property dimension distanceType hnswM
      hnswEfConstruction = .ok index) : (index.name ≠ "" ∧ index.label ≠ "" ∧ index.property ≠ "") ∧
      info.getVertexVectorIndexOf index.labelId index.propertyId = none ∧
      info.NoNormalIndex index.labelId index.propertyId ∧
      ∃ field, info.getVertexVectorField index.labelId index.propertyId = some field ∧
        field.dimensions = index.dimensions := by
  simp only [addVertexVectorIndex, bind_eq_ok, check_eq_ok, checkNoNormalIndexForVectorField_eq_ok, orThrow_eq_ok,
    exists_const, isNone_iff_eq_none] at added
  obtain ⟨given, -, -, -, distance, -, -, lid, -, pid, -, field, found, same, missing, fits, made⟩ := added
  cases made
  exact ⟨given, missing, fits, field, found, same⟩

theorem propose_wellMade {call : Call} (proposed : info.propose tokens indexId call = .ok request) :
    request.WellMade := by
  cases call <;> simp only [propose, map_eq_ok] at proposed <;> obtain ⟨made, added, rfl⟩ := proposed
  case addVertexPropertyIndex | addEdgePropertyIndex => exact (addPropertyIndex_eq_ok added).1
  case addVertexFullTextIndex => exact (addVertexFullTextIndex_eq_ok added).1
  case addVertexVectorField => exact (addVertexVectorField_eq_ok added).1
  case addVertexVectorIndex => exact (addVertexVectorIndex_eq_ok added).1
  all_goals exact trivial

theorem applyCreateVertexFullTextIndex_eq_ok {index : FullTextIndex} :
    info.applyCreateVertexFullTextIndex schema index = .ok next ↔
      (index.name ≠ "" ∧ index.labels ≠ [] ∧ index.properties ≠ []) ∧
        ((info.getVertexFullTextIndex index.name).isSome ∧ next = info ∨
          (info.getVertexFullTextIndex index.name).isNone ∧
            (index.labelIds.length = index.labels.length ∧ index.propertyIds.length = index.properties.length) ∧
            info.checkNoVectorFieldForNormalIndex index.labelIds index.propertyIds index.name = .ok () ∧
            schema ("id" :: index.properties) = true ∧
            next = { info with fullTextIndexes := info.fullTextIndexes ++ [{ index with state := .building }] }) := by
  simp only [applyCreateVertexFullTextIndex, newFtindex, bind_eq_ok, check_eq_ok, exists_const]
  refine and_congr_right fun _ => ?_
  cases info.getVertexFullTextIndex index.name with
  | some known => simp [pure_eq_ok]
  | none => simp only [isSome_none, isNone_none, Bool.false_eq_true, if_false, false_and, false_or, true_and,
      check_bind_eq_ok, check_eq_ok, pure_eq_ok]

theorem applyCreateVertexVectorField_eq_ok :
    info.applyCreateVertexVectorField field = .ok next ↔
      (field.label ≠ "" ∧ field.property ≠ "") ∧ (1 ≤ field.dimensions ∧ field.dimensions ≤ 4096) ∧
        ((∃ existing ∈ info.getVertexVectorField field.labelId field.propertyId,
            existing.dimensions = field.dimensions) ∧ next = info ∨
          info.getVertexVectorField field.labelId field.propertyId = none ∧
            info.NoNormalIndex field.labelId field.propertyId ∧
            next = { info with vectorFields := info.vectorFields ++ [field] }) := by
  simp only [applyCreateVertexVectorField, bind_eq_ok, check_eq_ok, exists_const]
  refine and_congr_right fun _ => and_congr_right fun _ => ?_
  cases info.getVertexVectorField field.labelId field.propertyId with
  | some existing =>
    simp only [check_bind_eq_ok, check_eq_ok, pure_eq_ok, reduceCtorEq, false_and, or_false, mem_def,
      some.injEq, exists_eq_left']
  | none =>
    simp only [check_bind_eq_ok, checkNoNormalIndexForVectorField_eq_ok, pure_eq_ok, mem_def, reduceCtorEq,
      false_and, exists_false, false_or, true_and]

theorem applyCreateVertexVectorIndex_eq_ok {index : VectorIndex} :
    info.applyCreateVertexVectorIndex index = .ok next ↔
      (index.name ≠ "" ∧ index.label ≠ "" ∧ index.property ≠ "") ∧
        ((info.getVertexVectorIndex index.name).isSome ∧ next = info ∨
          (info.getVertexVectorIndex index.name).isNone ∧
            (info.getVertexVectorIndexOf index.labelId index.propertyId).isNone ∧
            info.NoNormalIndex index.labelId index.propertyId ∧
            (∃ field, info.getVertexVectorField index.labelId index.propertyId = some field ∧
              field.dimensions = index.dimensions) ∧
            next = { info with vectorIndexes := info.vectorIndexes ++ [{ index with state := .building }] }) := by
  simp only [applyCreateVertexVectorIndex, bind_eq_ok, check_eq_ok, exists_and_left]
  refine and_congr_right fun _ => ?_
  cases info.getVertexVectorIndex index.name with
  | some known => simp [pure_eq_ok]
  | none =>
    simp only [isSome_none, isNone_none, Bool.false_eq_true, if_false, false_and, false_or, true_and,
      check_eq_ok, pure_eq_ok,
      checkNoNormalIndexForVectorField_eq_ok, bind_eq_ok, orThrow_eq_ok, exists_const, exists_and_right, ← and_assoc]

theorem apply_of_known (made : request.WellMade) (known : info.Known request) :
    ∃ next, info.apply schema request = .ok next := by
  cases request with
  | createVertexPropertyIndex | createEdgePropertyIndex =>
    exact ⟨_, map_eq_ok.mpr ⟨_, applyCreatePropertyIndex_eq_ok.mpr ⟨made.1, .inl ⟨known, rfl⟩⟩, rfl⟩⟩
  | createVertexFullTextIndex index =>
    exact ⟨_, applyCreateVertexFullTextIndex_eq_ok.mpr ⟨made, .inl ⟨known, rfl⟩⟩⟩
  | createVertexVectorField field =>
    exact ⟨_, applyCreateVertexVectorField_eq_ok.mpr ⟨made.1, made.2, .inl ⟨known, rfl⟩⟩⟩
  | createVertexVectorIndex index =>
    exact ⟨_, applyCreateVertexVectorIndex_eq_ok.mpr ⟨made, .inl ⟨known, rfl⟩⟩⟩
  | _ => exact ⟨_, rfl⟩

/-- A request accepted by the call that proposes it is accepted by `apply` on
the same catalog, but for full-text indexes that do not fit. -/
theorem apply_of_propose {call : Call} (proposed : info.propose tokens indexId call = .ok request)
    (fits : request.FullTextFits schema) : ∃ next, info.apply schema request = .ok next := by
  by_cases known : info.Known request
  · exact apply_of_known (propose_wellMade proposed) known
  cases call <;> simp only [propose, map_eq_ok] at proposed <;> obtain ⟨made, added, rfl⟩ := proposed
  case addVertexPropertyIndex | addEdgePropertyIndex =>
    obtain ⟨given, fits, missing⟩ := addPropertyIndex_eq_ok added
    exact ⟨_, map_eq_ok.mpr ⟨_, applyCreatePropertyIndex_eq_ok.mpr
      ⟨given.1, .inr ⟨by simpa [Known] using known, given.2, fits, by rw [missing]; rfl, rfl⟩⟩, rfl⟩⟩
  case addVertexFullTextIndex =>
    obtain ⟨given, free⟩ := addVertexFullTextIndex_eq_ok added
    have unknown : (info.getVertexFullTextIndex made.name).isNone := by simpa [Known] using known
    exact ⟨_, applyCreateVertexFullTextIndex_eq_ok.mpr ⟨given, .inr ⟨unknown, fits.1, free, fits.2, rfl⟩⟩⟩
  case addVertexVectorField =>
    obtain ⟨given, missing, free⟩ := addVertexVectorField_eq_ok added
    exact ⟨_, applyCreateVertexVectorField_eq_ok.mpr ⟨given.1, given.2, .inr ⟨missing, free, rfl⟩⟩⟩
  case addVertexVectorIndex =>
    obtain ⟨given, missing, free, field⟩ := addVertexVectorIndex_eq_ok added
    have unknown : (info.getVertexVectorIndex made.name).isNone := by simpa [Known] using known
    exact ⟨_, applyCreateVertexVectorIndex_eq_ok.mpr
      ⟨given, .inr ⟨unknown, by rw [missing]; rfl, free, field, rfl⟩⟩⟩
  all_goals exact ⟨_, rfl⟩

/-- The catalog without the states of the builds, which go on locally. -/
def fresh (info : MetaInfo) : MetaInfo where
  vertexPropertyIndexes := info.vertexPropertyIndexes.map fun index => { index with state := .building }
  edgePropertyIndexes := info.edgePropertyIndexes.map fun index => { index with state := .building }
  fullTextIndexes := info.fullTextIndexes.map fun index => { index with state := .building }
  vectorFields := info.vectorFields
  vectorIndexes := info.vectorIndexes.map fun index => { index with state := .building }

theorem NoNormalIndex.of_fresh {lid pid : Nat} (free : info.fresh.NoNormalIndex lid pid) :
    info.NoNormalIndex lid pid := by
  refine ⟨fun index mem => .inr ?_, fun index mem => .inr ?_⟩
  · have building := free.1 _ (mem_map_of_mem mem)
    simpa using building
  · have building := free.2 _ (mem_map_of_mem mem)
    simpa using building

theorem applyCreatePropertyIndex_of_fresh {kind : PropertyIndexKind} {result : List PropertyIndex}
    {index : PropertyIndex}
    (applied : applyCreatePropertyIndex kind (indexes.map fun index => { index with state := .building })
      noVectorField index = .ok result) :
    ∃ found, applyCreatePropertyIndex kind indexes noVectorField index = .ok found ∧
      found.map (fun index => { index with state := .building }) = result := by
  simp only [applyCreatePropertyIndex_eq_ok, propertyIndexByName, propertyIndexByKey, find?_map, Function.comp_def,
    isSome_map, isNone_map] at applied ⊢
  obtain ⟨given, ⟨known, rfl⟩ | ⟨unknown, counts, fits, missing, rfl⟩⟩ := applied
  · exact ⟨indexes, ⟨given, .inl ⟨known, rfl⟩⟩, rfl⟩
  · exact ⟨_, ⟨given, .inr ⟨unknown, counts, fits, missing, rfl⟩⟩, by rw [map_append]; rfl⟩

/-- Whatever a catalog without build states accepts, the catalog of a replica
accepts, and they stay the same catalog. -/
theorem apply_of_fresh (applied : info.fresh.apply schema request = .ok next) :
    ∃ result, info.apply schema request = .ok result ∧ result.fresh = next := by
  cases request with
  | createVertexPropertyIndex | createEdgePropertyIndex =>
    obtain ⟨indexes, created, rfl⟩ := map_eq_ok.mp applied
    obtain ⟨found, locally, rfl⟩ := applyCreatePropertyIndex_of_fresh created
    exact ⟨_, map_eq_ok.mpr ⟨found, locally, rfl⟩, rfl⟩
  | createVertexFullTextIndex index =>
    simp only [apply, applyCreateVertexFullTextIndex_eq_ok, getVertexFullTextIndex, fresh, find?_map,
      Function.comp_def, isSome_map, isNone_map] at applied ⊢
    obtain ⟨given, ⟨known, rfl⟩ | ⟨unknown, counts, free, fits, rfl⟩⟩ := applied
    · exact ⟨info, ⟨given, .inl ⟨known, rfl⟩⟩, rfl⟩
    · refine ⟨_, ⟨given, .inr ⟨unknown, counts, free, fits, rfl⟩⟩, ?_⟩
      simp
  | createVertexVectorField field =>
    simp only [apply, applyCreateVertexVectorField_eq_ok] at applied ⊢
    obtain ⟨given, range, ⟨known, rfl⟩ | ⟨missing, free, rfl⟩⟩ := applied
    · exact ⟨info, ⟨given, range, .inl ⟨known, rfl⟩⟩, rfl⟩
    · exact ⟨_, ⟨given, range, .inr ⟨missing, free.of_fresh, rfl⟩⟩, rfl⟩
  | createVertexVectorIndex index =>
    simp only [apply, applyCreateVertexVectorIndex_eq_ok, getVertexVectorIndex, getVertexVectorIndexOf, fresh,
      find?_map, Function.comp_def, isSome_map, isNone_map] at applied ⊢
    obtain ⟨given, ⟨known, rfl⟩ | ⟨unknown, missing, free, field, rfl⟩⟩ := applied
    · exact ⟨info, ⟨given, .inl ⟨known, rfl⟩⟩, rfl⟩
    · refine ⟨_, ⟨given, .inr ⟨unknown, missing, free.of_fresh, field, rfl⟩⟩, ?_⟩
      simp
  | _ =>
    cases applied
    refine ⟨_, rfl, ?_⟩
    simp [fresh, applyDeletePropertyIndex, List.filter_map, Function.comp_def]

end MetaInfo

end RocksGraph.Catalog
