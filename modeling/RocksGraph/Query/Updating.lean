import Mathlib.Data.Finset.Basic
import RocksGraph.Foundation.Footprint

/-! The writes of updating clauses (`physical_executor_support.cc`,
`graphdb_access.cc`).

What a write does is a function of the graph and one row. An entity that a clause
creates is named by its variable and its row; the ids that the storage hands out
in the order of creation play no role otherwise. Index maintenance is left out. -/

set_option autoImplicit false

namespace RocksGraph.Updates

open Foundation

inductive Identity where
  | stored (id : Nat)
  | created (name : String) (row : List Nat)
  deriving DecidableEq

inductive Entity where
  | node (id : Identity)
  | relationship (id : Identity)
  deriving DecidableEq

/-- `rg::Value` as far as writes tell values apart; an entity is its `Identity`. -/
inductive Value where
  | null
  | boolean (value : Bool)
  | integer (value : Int)
  | text (value : String)
  | node (id : Identity)
  | relationship (id : Identity)
  | path (nodes relationships : List Identity)
  | list (values : List Value)
  | map (entries : List (String × Value))

structure Link where
  id : Identity
  type : String
  startNode : Identity
  endNode : Identity
  deriving DecidableEq

/-- What writes read and change; patterns read `Query.Graph`. -/
structure Graph where
  nodes : Finset Identity
  links : Finset Link
  label : Identity → String → Bool
  property : Entity → String → Option Value

/-- `ExecutionRow`, with the position by which it is told apart from the other rows. -/
structure Row where
  position : List Nat
  values : String → Value

def Row.set (row : Row) (name : String) (value : Value) : Row :=
  { row with values := fun other => if other = name then value else row.values other }

inductive Failure where
  | vertexIdNotFound (node : Identity)
  | edgeIdNotFound (relationship : Identity)
  | invalidParameter (message : String)
  deriving DecidableEq

abbrev Run := Action Graph Failure

inductive Location where
  | node (id : Identity)
  | link (id : Identity)
  | label (node : Identity) (name : String)
  | property (entity : Entity) (key : String)
  deriving DecidableEq

inductive Cell where
  | flag (value : Bool)
  | links (links : Finset Link)
  | value (value : Option Value)

variable (graph : Graph)

def Graph.read : Location → Cell
  | .node id => .flag (decide (id ∈ graph.nodes))
  | .link id => .links (graph.links.filter (·.id = id))
  | .label node name => .flag (graph.label node name)
  | .property entity key => .value (graph.property entity key)

theorem Graph.ext_read {first second : Graph} (same : ∀ location, first.read location = second.read location) :
    first = second := by
  obtain ⟨nodes, links, label, property⟩ := first
  obtain ⟨otherNodes, otherLinks, otherLabel, otherProperty⟩ := second
  have sameNodes : nodes = otherNodes := by
    ext id
    have here := same (.node id)
    simp only [read, Cell.flag.injEq, decide_eq_decide] at here
    exact here
  have sameLinks : links = otherLinks := by
    ext link
    have here := same (.link link.id)
    simp only [read, Cell.links.injEq] at here
    have mem := congrArg (link ∈ ·) here
    simpa using mem
  have sameLabel : label = otherLabel := by
    funext node name
    have here := same (.label node name)
    simp only [read, Cell.flag.injEq] at here
    exact here
  have sameProperty : property = otherProperty := by
    funext entity key
    have here := same (.property entity key)
    simp only [read, Cell.value.injEq] at here
    exact here
  rw [sameNodes, sameLinks, sameLabel, sameProperty]

/-- Something computed from the graph and a row, with the locations it reads. -/
structure Reader (Output : Type) where
  value : Graph → Row → Except Failure Output
  reads : Row → Set Location
  value_congr : ∀ first second row, (∀ location ∈ reads row, first.read location = second.read location) →
    value first row = value second row

def Value.entity : Value → Option Entity
  | .node id => some (.node id)
  | .relationship id => some (.relationship id)
  | _ => none

/-- An expression of an updating clause, with the entities its value can be. -/
structure Expression extends Reader Value where
  yields : Row → Set Entity
  value_yields : ∀ graph row result, value graph row = .ok result → ∀ entity ∈ result.entity, entity ∈ yields row

def Reader.evaluate {Output : Type} (reader : Reader Output) (row : Row) : Run Output :=
  Action.inspect fun graph => reader.value graph row

inductive PropertyMap where
  | parameter (value : Expression)
  | entries (properties : List (String × Expression))

def PropertyMap.evaluate (operation : String) (row : Row) : PropertyMap → Run (List (String × Value))
  | .parameter expression => do
    match ← expression.evaluate row with
    | .map properties => return properties
    | _ => throw (.invalidParameter (operation ++ " properties parameter must be a map"))
  | .entries properties => properties.mapM fun entry => return (entry.1, ← entry.2.evaluate row)

variable (id : Identity)

def vertexById : Run Unit :=
  Action.inspect fun graph => if id ∈ graph.nodes then .ok () else .error (.vertexIdNotFound id)

def edgeById : Run Unit :=
  Action.inspect fun graph => if ∃ link ∈ graph.links, link.id = id then .ok () else .error (.edgeIdNotFound id)

def entityById : Entity → Run Unit
  | .node id => vertexById id
  | .relationship id => edgeById id

def Value.stored : Value → Option Value
  | .null => none
  | value => some value

def assigned (entries : List (String × Value)) (key : String) : Option Value := entries.reverse.lookup key

def Graph.createVertex (labels : List String) (properties : List (String × Value)) :
    Graph :=
  { graph with
    nodes := insert id graph.nodes
    label := fun other name => if other = id then decide (name ∈ labels) else graph.label other name
    property := fun entity key =>
      if entity = .node id then (assigned properties key).bind Value.stored else graph.property entity key }

def Graph.createEdge (link : Link) (properties : List (String × Value)) : Graph :=
  { graph with
    links := insert link (graph.links.filter (·.id ≠ link.id))
    property := fun entity key =>
      if entity = .relationship link.id then (assigned properties key).bind Value.stored
      else graph.property entity key }

/-- `SetProperties` and `RemoveProperty` of one key. -/
def Graph.setProperty (entity : Entity) (key : String) (value : Value) : Graph :=
  { graph with
    property := fun other name => if other = entity ∧ name = key then value.stored else graph.property other name }

def Graph.applyProperties (entity : Entity) (properties : String → Option Value)
    (includeExisting : Bool) : Graph :=
  { graph with
    property := fun other name =>
      if other = entity then
        match properties name with
        | some value => value.stored
        | none => if includeExisting then graph.property other name else none
      else graph.property other name }

/-- `AddLabels` and `DeleteLabels`. -/
def Graph.setLabels (node : Identity) (labels : List String) (present : Bool) : Graph :=
  { graph with
    label := fun other name => if other = node ∧ name ∈ labels then present else graph.label other name }

inductive Creation where
  | create
  | merge
  deriving DecidableEq

def Creation.name : Creation → String
  | .create => "CREATE"
  | .merge => "MERGE"

/-- `EvaluatePropertyMap`, and `EvaluateMergeProperties`, which does not take null. -/
def Creation.evaluateProperties (creation : Creation) (entity : String) (properties : PropertyMap) (row : Row) :
    Run (List (String × Value)) := do
  let operation := creation.name ++ " " ++ entity
  let values ← properties.evaluate operation row
  if creation = .merge ∧ values.any (·.2.stored.isNone) then
    throw (.invalidParameter (operation ++ " property value is null"))
  else return values

inductive CreateCommand where
  | node (name : String) (labels : List String) (properties : PropertyMap)
  | relationship (name type left right : String) (properties : PropertyMap)

/-- `NodeId`: the node of a row under a name, none for null. -/
def nodeId (row : Row) (name : String) : Run (Option Identity) :=
  match row.values name with
  | .null => return none
  | .node id => return some id
  | _ => throw (.invalidParameter "expected node value")

/-- `ExecuteStreamingWrite` and `ExecuteMergeCreate` for the two commands. -/
def CreateCommand.execute (creation : Creation) (row : Row) : CreateCommand → Run Row
  | .node name labels properties => do
    let values ← creation.evaluateProperties "node" properties row
    modify (·.createVertex (.created name row.position) labels values)
    return row.set name (.node (.created name row.position))
  | .relationship name type left right properties => do
    let startNode ← nodeId row left
    let endNode ← nodeId row right
    match startNode, endNode with
    | some startNode, some endNode => do
      let values ← creation.evaluateProperties "relationship" properties row
      vertexById startNode
      vertexById endNode
      modify (·.createEdge ⟨.created name row.position, type, startNode, endNode⟩ values)
      return row.set name (.relationship (.created name row.position))
    | _, _ => throw (.invalidParameter (creation.name ++ " relationship endpoints must be nodes"))

inductive SetItem where
  | property (entity : Expression) (key : String) (value : Expression)
  | properties (entity value : Expression) (includeExisting : Bool)
  | labels (entity : Expression) (labels : List String)

/-- The properties that a value of `SET n = value` stands for. -/
def Value.properties : Value → Run (String → Option Value)
  | .map entries => return assigned entries
  | .node id => Action.inspect fun graph => .ok (graph.property (.node id))
  | .relationship id => Action.inspect fun graph => .ok (graph.property (.relationship id))
  | _ => throw (.invalidParameter "SET properties requires a map or graph entity value")

def Value.withEntity (target : Value) (message : String) (action : Entity → Run Unit) : Run Unit :=
  match target with
  | .null => return ()
  | target =>
    match target.entity with
    | some entity => action entity
    | none => throw (.invalidParameter message)

def Value.withNode (target : Value) (message : String) (action : Identity → Run Unit) : Run Unit :=
  target.withEntity message fun entity =>
    match entity with
    | .node id => action id
    | .relationship _ => throw (.invalidParameter message)

/-- `ExecuteStreamingWrite` for an item of SET. -/
def SetItem.execute (row : Row) : SetItem → Run Unit
  | .property entity key value => do
    match ← entity.evaluate row with
    | .null => return ()
    | target => do
      let result ← value.evaluate row
      target.withEntity "SET property target is not an entity" fun entity => do
        entityById entity
        modify (·.setProperty entity key result)
  | .properties entity value includeExisting => do
    match ← entity.evaluate row with
    | .null => return ()
    | target => do
      let values ← (← value.evaluate row).properties
      target.withEntity "SET properties target is not an entity" fun entity => do
        entityById entity
        modify (·.applyProperties entity values includeExisting)
  | .labels entity added => do
    let target ← entity.evaluate row
    target.withNode "SET labels target is not a node" fun id => do
      vertexById id
      modify (·.setLabels id added true)

inductive RemoveItem where
  | property (entity : Expression) (key : String)
  | labels (entity : Expression) (labels : List String)

/-- `ExecuteStreamingWrite` for an item of REMOVE. -/
def RemoveItem.execute (row : Row) : RemoveItem → Run Unit
  | .property entity key => do
    let target ← entity.evaluate row
    target.withEntity "REMOVE property target is not an entity" fun entity => do
      entityById entity
      modify (·.setProperty entity key .null)
  | .labels entity removed => do
    let target ← entity.evaluate row
    target.withNode "REMOVE labels target is not a node" fun id => do
      vertexById id
      modify (·.setLabels id removed false)

inductive Write where
  | create (command : CreateCommand)
  | set (item : SetItem)
  | remove (item : RemoveItem)

def Write.execute (row : Row) : Write → Run Row
  | .create command => command.execute .create row
  | .set item => do
    item.execute row
    return row
  | .remove item => do
    item.execute row
    return row

end RocksGraph.Updates
