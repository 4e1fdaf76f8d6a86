import RocksGraph.Query.Updating

/-! What the writes of updating clauses read and write, and that they touch nothing
else. -/

set_option autoImplicit false

namespace RocksGraph.Updates

open Foundation

def Entity.location : Entity → Location
  | .node id => .node id
  | .relationship id => .link id

def Entity.cells : Entity → Set Location
  | .node id => {location | location = .node id ∨ (∃ name, location = .label id name) ∨
      ∃ key, location = .property (.node id) key}
  | .relationship id => {location | location = .link id ∨ ∃ key, location = .property (.relationship id) key}

variable (expression : Expression)

def Expression.targets (row : Row) : Set Location :=
  {location | ∃ entity ∈ expression.yields row, location = entity.location}

def Expression.allProperties (row : Row) : Set Location :=
  {location | ∃ entity ∈ expression.yields row, ∃ key, location = .property entity key}

variable {entity : Entity} {id : Identity}

theorem Expression.location_mem {expression : Expression} {row : Row}
    (mem : entity ∈ expression.yields row) : entity.location ∈ expression.targets row := ⟨entity, mem, rfl⟩

def PropertyMap.reads (row : Row) : PropertyMap → Set Location
  | .parameter expression => expression.reads row
  | .entries properties => {location | ∃ entry ∈ properties, location ∈ entry.2.reads row}

variable (row : Row)

def Row.endpoints (left right : String) : Set Location :=
  {location | ∃ id, (row.values left = .node id ∨ row.values right = .node id) ∧ location = .node id}

def CreateCommand.footprint : CreateCommand → Footprint Location
  | .node name _ properties =>
    (Footprint.ofReads (properties.reads row)).join (.ofWrites (Entity.node (.created name row.position)).cells)
  | .relationship name _ left right properties =>
    (Footprint.ofReads (properties.reads row)).join
      ((Footprint.ofReads (row.endpoints left right)).join
        (.ofWrites (Entity.relationship (.created name row.position)).cells))

def SetItem.footprint : SetItem → Footprint Location
  | .property entity key value =>
    (Footprint.ofReads (entity.reads row)).join ((Footprint.ofReads (value.reads row)).join
      ((Footprint.ofReads (entity.targets row)).join
        (.ofWrites {location | ∃ target ∈ entity.yields row, location = .property target key})))
  | .properties entity value _ =>
    (Footprint.ofReads (entity.reads row)).join ((Footprint.ofReads (value.reads row)).join
      ((Footprint.ofReads (value.allProperties row)).join
        ((Footprint.ofReads (entity.targets row)).join (.ofWrites (entity.allProperties row)))))
  | .labels entity added =>
    (Footprint.ofReads (entity.reads row)).join ((Footprint.ofReads (entity.targets row)).join
      (.ofWrites {location | ∃ id, .node id ∈ entity.yields row ∧ ∃ name ∈ added, location = .label id name}))

def RemoveItem.footprint : RemoveItem → Footprint Location
  | .property entity key =>
    (Footprint.ofReads (entity.reads row)).join ((Footprint.ofReads (entity.targets row)).join
      (.ofWrites {location | ∃ target ∈ entity.yields row, location = .property target key}))
  | .labels entity removed =>
    (Footprint.ofReads (entity.reads row)).join ((Footprint.ofReads (entity.targets row)).join
      (.ofWrites {location | ∃ id, .node id ∈ entity.yields row ∧ ∃ name ∈ removed, location = .label id name}))

def Write.footprint (row : Row) : Write → Footprint Location
  | .create command => command.footprint row
  | .set item => item.footprint row
  | .remove item => item.footprint row

theorem Reader.confined {Output : Type} (reader : Reader Output) (row : Row) :
    Confined Graph.read (.ofReads (reader.reads row)) (reader.evaluate row) :=
  .inspect fun first second agree => reader.value_congr first second row agree

theorem Expression.evaluate_yields (row : Row) (first : Graph) (result : Value)
    (last : Graph) (gives : (expression.evaluate row).Gives first result last) :
    ∀ entity ∈ result.entity, entity ∈ expression.yields row :=
  expression.value_yields first row result (Action.gives_inspect.mp gives).1

variable {reads : Set Location}

theorem vertexById_confined (mem : .node id ∈ reads) :
    Confined Graph.read (.ofReads reads) (vertexById id) := by
  refine .inspect fun first second agree => ?_
  have same := agree (.node id) mem
  simp only [Graph.read, Cell.flag.injEq, decide_eq_decide] at same
  simp only [same]

theorem edgeById_confined (mem : .link id ∈ reads) :
    Confined Graph.read (.ofReads reads) (edgeById id) := by
  refine .inspect fun first second agree => ?_
  have same := agree (.link id) mem
  simp only [Graph.read, Cell.links.injEq] at same
  have known : ∀ graph : Graph, (∃ link ∈ graph.links, link.id = id) ↔ (graph.links.filter (·.id = id)).Nonempty :=
    fun graph => by simp [Finset.Nonempty]
  simp only [known, same]

theorem entityById_confined (mem : entity.location ∈ reads) :
    Confined Graph.read (.ofReads reads) (entityById entity) := by
  cases entity with
  | node id => exact vertexById_confined mem
  | relationship id => exact edgeById_confined mem

theorem property_confined (mem : ∀ key, .property entity key ∈ reads) :
    Confined Graph.read (.ofReads reads)
      (Action.inspect fun graph => .ok (graph.property entity) : Run (String → Option Value)) := by
  refine .inspect fun first second agree => congrArg Except.ok (funext fun key => ?_)
  have same := agree (.property entity key) (mem key)
  simpa only [Graph.read, Cell.value.injEq] using same

theorem PropertyMap.confined (operation : String) (row : Row) (properties : PropertyMap) :
    Confined Graph.read (.ofReads (properties.reads row)) (properties.evaluate operation row) := by
  cases properties with
  | parameter expression =>
    refine (expression.confined row).andThen fun result => ?_
    split
    · exact .pure _
    · exact .throw _
  | entries properties =>
    refine .mapM fun entry mem => ?_
    have here : Confined Graph.read (.ofReads (reads row (.entries properties))) (entry.2.evaluate row) :=
      (entry.2.confined row).mono (fun location isRead => ⟨entry, mem, isRead⟩) (Set.empty_subset _)
    exact here.andThen fun result => .pure _

theorem Creation.evaluateProperties_confined (creation : Creation) (entity : String) (properties : PropertyMap)
    (row : Row) :
    Confined Graph.read (.ofReads (properties.reads row)) (creation.evaluateProperties entity properties row) := by
  refine (properties.confined _ row).andThen fun values => ?_
  split
  · exact .throw _
  · exact .pure _

theorem Value.properties_confined {value : Value} {entities : Set Entity}
    (yields : ∀ entity ∈ value.entity, entity ∈ entities) :
    Confined Graph.read (.ofReads {location | ∃ entity ∈ entities, ∃ key, location = .property entity key})
      value.properties := by
  cases value with
  | map entries => exact .pure _
  | node id => exact property_confined fun key => ⟨.node id, yields _ rfl, key, rfl⟩
  | relationship id => exact property_confined fun key => ⟨.relationship id, yields _ rfl, key, rfl⟩
  | null | boolean | integer | text | path | list => exact .throw _

section Writing

variable {footprint : Footprint Location} {entities : Set Entity}

theorem Value.withEntity_confined {target : Value} {message : String} {action : Entity → Run Unit}
    (yields : ∀ entity ∈ target.entity, entity ∈ entities)
    (confined : ∀ entity ∈ entities, Confined Graph.read footprint (action entity)) :
    Confined Graph.read footprint (target.withEntity message action) := by
  unfold withEntity
  split
  · exact .pure ()
  split
  next entity isEntity =>
    exact confined entity (yields entity isEntity)
  · exact .throw _

theorem Value.withNode_confined {target : Value} {message : String} {action : Identity → Run Unit}
    (yields : ∀ entity ∈ target.entity, entity ∈ entities)
    (confined : ∀ id, .node id ∈ entities → Confined Graph.read footprint (action id)) :
    Confined Graph.read footprint (target.withNode message action) := by
  refine withEntity_confined yields fun entity mem => ?_
  cases entity with
  | node id => exact confined id mem
  | relationship id => exact .throw _

theorem setProperty_confined (mem : entity ∈ entities) (key : String) (value : Value) :
    Confined Graph.read (.ofWrites {location | ∃ target ∈ entities, location = .property target key})
      (modify (·.setProperty entity key value) : Run Unit) := by
  refine .update fun location => ?_
  cases location with
  | property other name =>
    by_cases same : other = entity ∧ name = key
    · obtain ⟨rfl, rfl⟩ := same
      exact .inr ⟨⟨other, mem, rfl⟩, .value value.stored, fun graph => by simp [Graph.read, Graph.setProperty]⟩
    · exact .inl fun graph => by simp [Graph.read, Graph.setProperty, same]
  | node | link | label => exact .inl fun _ => rfl

def propertiesAssigned (entity : Entity) (properties : String → Option Value) (includeExisting : Bool) :
    Location → Option Cell
  | .property other name =>
    if other = entity then
      match properties name with
      | some value => some (.value value.stored)
      | none => if includeExisting then none else some (.value none)
    else none
  | _ => none

theorem applyProperties_confined (mem : entity ∈ entities) (properties : String → Option Value)
    (includeExisting : Bool) :
    Confined Graph.read (.ofWrites {location | ∃ target ∈ entities, ∃ key, location = .property target key})
      (modify (·.applyProperties entity properties includeExisting) : Run Unit) := by
  refine .update fun location => ?_
  cases location with
  | property other name =>
    by_cases same : other = entity
    · cases assigned : propertiesAssigned entity properties includeExisting (.property other name) with
      | none =>
        refine .inl fun graph => ?_
        cases given : properties name <;> cases includeExisting <;>
          simp_all [Graph.read, Graph.applyProperties, propertiesAssigned]
      | some cell =>
        refine .inr ⟨⟨entity, mem, name, by rw [same]⟩, cell, fun graph => ?_⟩
        cases given : properties name <;> cases includeExisting <;>
          simp_all [Graph.read, Graph.applyProperties, propertiesAssigned]
    · exact .inl fun graph => by simp [Graph.read, Graph.applyProperties, same]
  | node | link | label => exact .inl fun _ => rfl

theorem setLabels_confined (mem : .node id ∈ entities) (labels : List String) (present : Bool) :
    Confined Graph.read
      (.ofWrites {location | ∃ id, .node id ∈ entities ∧ ∃ name ∈ labels, location = .label id name})
      (modify (·.setLabels id labels present) : Run Unit) := by
  refine .update fun location => ?_
  cases location with
  | label other name =>
    by_cases written : other = id ∧ name ∈ labels
    · exact .inr ⟨⟨id, mem, name, written.2, by rw [written.1]⟩, .flag present, fun graph => by
        simp [Graph.read, Graph.setLabels, written]⟩
    · exact .inl fun graph => by simp [Graph.read, Graph.setLabels, written]
  | node | link | property => exact .inl fun _ => rfl

theorem createVertex_confined (id : Identity) (labels : List String) (properties : List (String × Value)) :
    Confined Graph.read (.ofWrites (Entity.node id).cells)
      (modify (·.createVertex id labels properties) : Run Unit) := by
  refine .update fun location => ?_
  cases location with
  | node other =>
    by_cases same : other = id
    · exact .inr ⟨.inl (by rw [same]), .flag true, fun graph => by simp [Graph.read, Graph.createVertex, same]⟩
    · exact .inl fun graph => by simp [Graph.read, Graph.createVertex, same]
  | label other name =>
    by_cases same : other = id
    · exact .inr ⟨.inr (.inl ⟨name, by rw [same]⟩), .flag (decide (name ∈ labels)), fun graph => by
        simp [Graph.read, Graph.createVertex, same]⟩
    · exact .inl fun graph => by simp [Graph.read, Graph.createVertex, same]
  | property entity key =>
    by_cases same : entity = .node id
    · exact .inr ⟨.inr (.inr ⟨key, by rw [same]⟩), .value ((assigned properties key).bind Value.stored), fun graph => by
        simp [Graph.read, Graph.createVertex, same]⟩
    · exact .inl fun graph => by simp [Graph.read, Graph.createVertex, same]
  | link other => exact .inl fun _ => rfl

theorem createEdge_confined (link : Link) (properties : List (String × Value)) :
    Confined Graph.read (.ofWrites (Entity.relationship link.id).cells)
      (modify (·.createEdge link properties) : Run Unit) := by
  refine .update fun location => ?_
  cases location with
  | link other =>
    by_cases same : other = link.id
    · refine .inr ⟨.inl (by rw [same]), .links {link}, fun graph => congrArg Cell.links ?_⟩
      ext found
      simp only [Graph.createEdge]
      grind
    · refine .inl fun graph => congrArg Cell.links ?_
      ext found
      simp only [Graph.createEdge]
      grind
  | property entity key =>
    by_cases same : entity = .relationship link.id
    · exact .inr ⟨.inr ⟨key, by rw [same]⟩, .value ((assigned properties key).bind Value.stored), fun graph => by
        simp [Graph.read, Graph.createEdge, same]⟩
    · exact .inl fun graph => by simp [Graph.read, Graph.createEdge, same]
  | node | label => exact .inl fun _ => rfl

end Writing

/-! ## The writes of a clause -/

theorem nodeId_confined (name : String) (footprint : Footprint Location) :
    Confined Graph.read footprint (nodeId row name) := by
  unfold nodeId
  split
  · exact .pure _
  · exact .pure _
  · exact .throw _

theorem nodeId_value {row : Row} {name : String} (first : Graph) (found : Option Identity) (last : Graph)
    (gives : (nodeId row name).Gives first found last) : ∀ id ∈ found, row.values name = .node id := by
  rintro id rfl
  unfold nodeId at gives
  split at gives
  · cases (Action.gives_pure.mp gives).1
  next held isHeld =>
    rw [isHeld, Option.some.inj (Action.gives_pure.mp gives).1]
  · exact (Action.gives_throw gives).elim

theorem CreateCommand.confined (creation : Creation) (row : Row) (command : CreateCommand) :
    Confined Graph.read (command.footprint row) (command.execute creation row) := by
  cases command with
  | node name labels properties =>
    refine (creation.evaluateProperties_confined "node" properties row).bind (fun _ _ _ _ => trivial) fun values _ => ?_
    exact (createVertex_confined _ labels values).andThen fun _ => .pure _
  | relationship name type left right properties =>
    refine (nodeId_confined row left _).within nodeId_value fun startNode isStart => ?_
    refine (nodeId_confined row right _).within nodeId_value fun endNode isEnd => ?_
    split
    next startNode endNode =>
      refine (creation.evaluateProperties_confined "relationship" properties row).bind (fun _ _ _ _ => trivial)
        fun values _ => ?_
      have startRead : .node startNode ∈ row.endpoints left right := ⟨startNode, .inl (isStart startNode rfl), rfl⟩
      have endRead : .node endNode ∈ row.endpoints left right := ⟨endNode, .inr (isEnd endNode rfl), rfl⟩
      have created := createEdge_confined ⟨.created name row.position, type, startNode, endNode⟩ values
      have inFootprint : ∀ {reads writes : Set Location} {id : Identity}, .node id ∈ reads →
          Confined Graph.read ((Footprint.ofReads reads).join (.ofWrites writes)) (vertexById id) :=
        fun mem => (vertexById_confined mem).mono Set.subset_union_left Set.subset_union_left
      refine (inFootprint startRead).andThen fun _ => (inFootprint endRead).andThen fun _ => ?_
      refine Confined.andThen (created.mono Set.subset_union_right Set.subset_union_right) fun _ => .pure _
    · exact .throw _

theorem SetItem.confined (item : SetItem) :
    Confined Graph.read (item.footprint row) (item.execute row) := by
  cases item with
  | property entity key value =>
    refine (entity.confined row).bind (entity.evaluate_yields row) fun target yields => ?_
    split
    · exact .pure _
    refine (value.confined row).bind (fun _ _ _ _ => trivial) fun result _ => ?_
    refine Value.withEntity_confined yields fun found mem => ?_
    exact (entityById_confined (Expression.location_mem mem)).bind (fun _ _ _ _ => trivial) fun _ _ =>
      setProperty_confined mem key result
  | properties entity value includeExisting =>
    refine (entity.confined row).bind (entity.evaluate_yields row) fun target yields => ?_
    split
    · exact .pure _
    refine (value.confined row).bind (value.evaluate_yields row) fun result resultYields => ?_
    refine (Value.properties_confined resultYields).bind (fun _ _ _ _ => trivial) fun values _ => ?_
    refine Value.withEntity_confined yields fun found mem => ?_
    exact (entityById_confined (Expression.location_mem mem)).bind (fun _ _ _ _ => trivial) fun _ _ =>
      applyProperties_confined mem values includeExisting
  | labels entity added =>
    refine (entity.confined row).bind (entity.evaluate_yields row) fun target yields => ?_
    refine Value.withNode_confined yields fun id mem => ?_
    exact (entityById_confined (Expression.location_mem mem)).bind (fun _ _ _ _ => trivial) fun _ _ =>
      setLabels_confined mem added true

theorem RemoveItem.confined (item : RemoveItem) :
    Confined Graph.read (item.footprint row) (item.execute row) := by
  cases item with
  | property entity key =>
    refine (entity.confined row).bind (entity.evaluate_yields row) fun target yields => ?_
    refine Value.withEntity_confined yields fun found mem => ?_
    exact (entityById_confined (Expression.location_mem mem)).bind (fun _ _ _ _ => trivial) fun _ _ =>
      setProperty_confined mem key .null
  | labels entity removed =>
    refine (entity.confined row).bind (entity.evaluate_yields row) fun target yields => ?_
    refine Value.withNode_confined yields fun id mem => ?_
    exact (entityById_confined (Expression.location_mem mem)).bind (fun _ _ _ _ => trivial) fun _ _ =>
      setLabels_confined mem removed false

theorem Write.confined (write : Write) :
    Confined Graph.read (write.footprint row) (write.execute row) := by
  cases write with
  | create command => exact command.confined .create row
  | set item | remove item => exact (item.confined row).andThen fun _ => .pure row

end RocksGraph.Updates
