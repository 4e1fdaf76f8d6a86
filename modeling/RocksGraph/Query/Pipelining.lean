import RocksGraph.Query.UpdateFootprint

/-! Updating clauses and the operators that run them (`query_ir_builder.cc`,
`logical_plan_builder.cc`, `physical_executor_unary.cc`,
`physical_executor_join.cc`).

`StreamingWriteOperator` writes for one row each time a row is pulled. `DELETE`,
`MERGE` and `WriteBarrierOperator` pull all rows first and hand them on from a
buffer. -/

set_option autoImplicit false

namespace RocksGraph.Updates

open Foundation

/-- The rows that the match plan of `MERGE` still finds. It is pulled row by row, while ON MATCH writes to the graph. -/
inductive Found where
  | done
  | failed (failure : Failure)
  | next (values : List (String × Value)) (rest : Graph → Found)

structure Merge where
  find : Graph → Row → Found
  creates : List CreateCommand
  onMatch : List SetItem
  onCreate : List SetItem

def Row.setAll (row : Row) (values : List (String × Value)) : Row :=
  values.foldl (fun row entry => row.set entry.1 entry.2) row

def executeMergeActions (items : List SetItem) (row : Row) : Run Unit := forM items (·.execute row)

def Merge.matched (merge : Merge) (row : Row) : Nat → Found → Run (List Row)
  | _, .done => return []
  | _, .failed failure => throw failure
  | count, .next values rest => do
    let output := { row.setAll values with position := row.position ++ [count] }
    executeMergeActions merge.onMatch output
    let graph ← get
    return output :: (← merge.matched row (count + 1) (rest graph))

/-- `MergeOperator::Initialize` for one row. -/
def Merge.execute (merge : Merge) (row : Row) : Run (List Row) := do
  let graph ← get
  let outputs ← merge.matched row 0 (merge.find graph row)
  if outputs.isEmpty then
    let created ← merge.creates.foldlM (fun row command => command.execute .merge row) row
    executeMergeActions merge.onCreate created
    return [{ created with position := row.position ++ [0] }]
  else return outputs

/-- What `DeleteOperator` collects: its rows and the entities to delete. -/
structure Doomed where
  rows : List Row
  nodes : List Identity
  relationships : List Identity

def Doomed.add (doomed : Doomed) : Value → Run Doomed
  | .null => return doomed
  | .node id => return { doomed with nodes := doomed.nodes ++ [id] }
  | .relationship id => return { doomed with relationships := doomed.relationships ++ [id] }
  | .path nodes relationships =>
    return { doomed with nodes := doomed.nodes ++ nodes, relationships := doomed.relationships ++ relationships }
  | _ => throw (.invalidParameter "DELETE expression is not a graph entity or path")

def Doomed.collect (expressions : List Expression) (doomed : Doomed) (row : Row) : Run Doomed :=
  expressions.foldlM (fun doomed expression => do doomed.add (← expression.evaluate row))
    { doomed with rows := doomed.rows ++ [row] }

def Link.touches (link : Link) (node : Identity) : Bool := link.startNode = node || link.endNode = node

def Graph.deleteEdge (graph : Graph) (id : Identity) : Graph :=
  { graph with
    links := graph.links.filter (·.id ≠ id)
    property := fun entity key => if entity = .relationship id then none else graph.property entity key }

/-- `Vertex::Delete`, with the relationships of the node. -/
def Graph.deleteVertex (graph : Graph) (id : Identity) : Graph where
  nodes := graph.nodes.erase id
  links := graph.links.filter fun link => !link.touches id
  label := fun other name => if other = id then false else graph.label other name
  property := fun entity key =>
    if entity = .node id ∨ ∃ link ∈ graph.links, link.touches id ∧ entity = .relationship link.id then none
    else graph.property entity key

/-- A node is deleted without its relationships only if they are deleted, too. -/
def checkDetached (doomed : Doomed) (id : Identity) : Run Unit := do
  vertexById id
  Action.inspect fun graph =>
    if ∀ link ∈ graph.links, link.touches id → link.id ∈ doomed.relationships then .ok ()
    else .error (.invalidParameter "DELETE node still has relationships")

/-- The end of `DeleteOperator::Initialize`. The ids are a set; their order decides only which error is thrown. -/
def Doomed.delete (detach : Bool) (doomed : Doomed) : Run Unit := do
  unless detach do forM doomed.nodes.eraseDups (checkDetached doomed)
  forM doomed.relationships.eraseDups fun id => do
    edgeById id
    modify (·.deleteEdge id)
  forM doomed.nodes.eraseDups fun id => do
    vertexById id
    modify (·.deleteVertex id)

inductive UpdatingClause where
  | create (commands : List CreateCommand)
  | set (items : List SetItem)
  | remove (items : List RemoveItem)
  | delete (detach : Bool) (expressions : List Expression)
  | merge (pattern : Merge)

/-- The operators of a clause that only streams: `ApplyCreatePattern`, `ApplySetPatterns` and `ApplyRemovePatterns`. -/
def UpdatingClause.writes : UpdatingClause → Option (List Write)
  | .create commands => some (commands.map .create)
  | .set items => some (items.map .set)
  | .remove items => some (items.map .remove)
  | .delete .. | .merge .. => none

def executeAll (writes : List Write) (row : Row) : Run Row := writes.foldlM (fun row write => write.execute row) row

def UpdatingClause.run (rows : List Row) : UpdatingClause → Run (List Row)
  | .create commands => rows.mapM (executeAll (commands.map .create))
  | .set items => rows.mapM (executeAll (items.map .set))
  | .remove items => rows.mapM (executeAll (items.map .remove))
  | .delete detach expressions => do
    let doomed ← rows.foldlM (Doomed.collect expressions) ⟨[], [], []⟩
    doomed.delete detach
    return doomed.rows
  | .merge pattern => rows.foldlM (fun outputs row => return outputs ++ (← pattern.execute row)) []

section Projection

variable {Output : Type} (projection : Reader Output)

def project (outputs : List Output) (row : Row) : Run (List Output) := return outputs ++ [← projection.evaluate row]

/-- Each clause over all rows before the next one starts, and the projection after the last one. -/
def clauseByClause : List UpdatingClause → List Row → Run (List Output)
  | [], rows => rows.foldlM (project projection) []
  | clause :: rest, rows => do clauseByClause rest (← clause.run rows)

end Projection

inductive Operator where
  | rows (table : List Row)
  | write (data : Write) (source : Operator)
  | barrier (source : Operator)
  | delete (detach : Bool) (expressions : List Expression) (source : Operator)
  | merge (pattern : Merge) (source : Operator)

/-- The loop `while (operator->Next(&row)) total = body(total, row)`. -/
def Operator.fold : Operator → {Total : Type} → (Total → Row → Run Total) → Total → Run Total
  | .rows table, _, body, total => table.foldlM body total
  | .write data source, _, body, total => source.fold (fun total row => do body total (← data.execute row)) total
  | .barrier source, _, body, total => do
    let buffer ← source.fold (fun buffer row => return buffer ++ [row]) []
    buffer.foldlM body total
  | .delete detach expressions source, _, body, total => do
    let doomed ← source.fold (Doomed.collect expressions) ⟨[], [], []⟩
    doomed.delete detach
    doomed.rows.foldlM body total
  | .merge pattern source, _, body, total => do
    let buffer ← source.fold (fun buffer row => return buffer ++ (← pattern.execute row)) []
    buffer.foldlM body total

structure SegmentBuilder where
  finished : List (List UpdatingClause)
  current : List UpdatingClause
  reads : Bool

variable (builder : SegmentBuilder)

def SegmentBuilder.hasLocalWork : Bool := builder.reads || !builder.current.isEmpty

/-- `Finish` with a passthrough horizon, and `StartNext`. -/
def SegmentBuilder.finishAndStartNext : SegmentBuilder :=
  ⟨builder.finished ++ [builder.current], [], false⟩

/-- The body of the loop of `BuildUpdatingClauses`. A projection follows, so that there is a segment after a last MERGE. -/
def SegmentBuilder.add (clause : UpdatingClause) : SegmentBuilder :=
  match clause with
  | .merge _ =>
    let ready := if builder.hasLocalWork then builder.finishAndStartNext else builder
    { ready with current := ready.current ++ [clause] }.finishAndStartNext
  | _ => { builder with current := builder.current ++ [clause] }

def SegmentBuilder.segments : List (List UpdatingClause) :=
  builder.finished ++ [builder.current]

def buildUpdatingClauses (reads : Bool) (clauses : List UpdatingClause) : List (List UpdatingClause) :=
  (clauses.foldl SegmentBuilder.add ⟨[], [], reads⟩).segments

variable (source : Operator)

def applyWrites (writes : List Write) : Operator :=
  writes.foldl (fun source write => .write write source) source

def applyMutatingPattern : UpdatingClause → Operator
  | .create commands => applyWrites source (commands.map .create)
  | .set items => applyWrites source (items.map .set)
  | .remove items => applyWrites source (items.map .remove)
  | .delete detach expressions => .delete detach expressions source
  | .merge pattern => .merge pattern source

def applyMutatingPatterns (clauses : List UpdatingClause) : Operator :=
  if clauses.isEmpty then source else clauses.foldl applyMutatingPattern (.barrier source)

/-- `BuildTailSegment` for a segment that does not read. -/
def buildTailSegment (clauses : List UpdatingClause) : Operator :=
  if clauses.isEmpty then source else applyMutatingPatterns (.barrier source) clauses

def buildSegments : List (List UpdatingClause) → Operator
  | [] => source
  | root :: tails => tails.foldl buildTailSegment (applyMutatingPatterns source root)

def execute {Output : Type} (projection : Reader Output) (reads : Bool) (clauses : List UpdatingClause)
    (rows : List Row) : Run (List Output) :=
  (buildSegments (.rows rows) (buildUpdatingClauses reads clauses)).fold (project projection) []

end RocksGraph.Updates
