import RocksGraph.Query.VarExpand

/-! `ProjectEndpointsOperator` (`physical_executor_scan.cc`): a pattern whose relationships are bound already. -/

set_option autoImplicit false

namespace RocksGraph.Query

open List Option

/-- `ProjectEndpointsOp`; the pattern has the length too, and the slots of the row are names. -/
structure ProjectEndpointsOp where
  pattern : RelationshipPattern
  fromNode : String
  toNode : String

namespace ProjectEndpointsOp

variable (op : ProjectEndpointsOp) (graph : Graph) (input : Bindings)

/-- The bound relationships, or nothing where null or the length rules out a match. Another value throws. -/
def relationshipIds : Option (Option (List Nat)) :=
  match input op.pattern.name, op.pattern.range with
  | some .null, _ => some none
  | some (.relationship id), none => some (some [id])
  | some (.relationships ids), some range => some (if range.admits ids.length then some ids else none)
  | _, _ => none

/-- `GraphDBEdgeById` and `RelationshipHasType`. -/
def edgeById (id : Nat) : Option Relationship :=
  graph.relationships.find? fun edge => edge.id == id && op.pattern.allows edge

def existing (ids : List Nat) : Option (List Relationship) := if ids.Nodup then ids.mapM (op.edgeById graph) else none

/-- The empty list takes its node from the first endpoint that is initialized. -/
def emptyEndpoints : Option (List (Nat × Nat)) :=
  match (input op.fromNode).or (input op.toNode) with
  | none | some .null => some []
  | some (.node id) => some [(id, id)]
  | some _ => none

def starts (first : Relationship) : List Nat :=
  let starts := if op.pattern.direction = .incoming then [] else [first.startNode]
  if op.pattern.direction ≠ .outgoing ∧ starts.head? ≠ some first.endNode then starts ++ [first.endNode] else starts

def follow (relationships : List Relationship) (start : Nat) : Option Nat :=
  relationships.foldlM (fun node relationship => op.pattern.direction.next relationship node) start

variable (first : Relationship)

/-- The last loop, from both ends of the first relationship if the direction allows it. -/
def endpoints (rest : List Relationship) : List (Nat × Nat) :=
  (op.starts first).filterMap fun start => (op.follow (first :: rest) start).map (start, ·)

def prepareEndpoints : Option (List (Nat × Nat)) :=
  (op.relationshipIds input).bind fun bound =>
    match bound.bind (op.existing graph) with
    | none => some []
    | some [] => op.emptyEndpoints input
    | some (first :: rest) => some (op.endpoints first rest)

def output (pair : Nat × Nat) : Option Bindings :=
  (input.tryBind op.fromNode (.node pair.1)).bind fun row => row.tryBind op.toNode (.node pair.2)

/-- The endpoints and rows for one input row. A node that is not in the store throws. -/
def project : Option (List ((Nat × Nat) × Bindings)) :=
  (op.prepareEndpoints graph input).bind fun pairs =>
    if ∀ pair ∈ pairs, pair.1 ∈ graph.nodes ∧ pair.2 ∈ graph.nodes then
      some (pairs.filterMap fun pair => (op.output input pair).map (pair, ·))
    else none

def Binds (ids : List Nat) : Prop :=
  match op.pattern.range with
  | none => ∃ id, input op.pattern.name = some (.relationship id) ∧ ids = [id]
  | some range => input op.pattern.name = some (.relationships ids) ∧ range.admits ids.length

def Free (name : String) (id : Nat) : Prop := input name = none ∨ input name = some (.node id)

structure Matches (source target : Nat) : Prop where
  trail : ∃ ids, op.Binds input ids ∧ ids.Nodup ∧ graph.Walk op.pattern source ids target
  inside : source ∈ graph.nodes ∧ target ∈ graph.nodes
  ends : Free input op.fromNode source ∧ Free input op.toNode target
  loop : op.fromNode = op.toNode → source = target

/-- When `CreateRelationshipLeafPlans` plans the operator: the list cannot be empty, or an endpoint is bound. -/
def Planned : Prop := op.pattern.range.all (0 < ·.atLeast) ∨ input op.fromNode ≠ none ∨ input op.toNode ≠ none

/-- The values of the row are of the kinds the operator asks for, and its nodes are in the store. -/
structure Typed : Prop where
  relationships : (op.relationshipIds input).isSome
  nodes : ∀ name ∈ [op.fromNode, op.toNode], ∀ held ∈ input name, held = .null ∨ ∃ id ∈ graph.nodes, held = .node id

variable {op graph input} {ids : List Nat} {source target : Nat}

theorem relationshipIds_eq_some : op.relationshipIds input = some (some ids) ↔ op.Binds input ids := by
  unfold relationshipIds Binds
  grind

/-- An empty list is bound only where the length may be 0. -/
theorem Binds.length_pos (binds : op.Binds input []) : ¬ op.pattern.range.all (0 < ·.atLeast) := by
  unfold Binds at binds
  cases given : op.pattern.range with
  | none => simp [given] at binds
  | some range =>
    rw [given] at binds
    simpa using (Range.admits_iff.mp binds.2).1

theorem leads_iff {id : Nat} : graph.Leads op.pattern source id target ↔
    ∃ edge, op.edgeById graph id = some edge ∧ op.pattern.direction.next edge source = some target := by
  constructor
  · rintro ⟨edge, mem, rfl, allowed, leads⟩
    cases found : op.edgeById graph edge.id with
    | none => simpa [allowed] using find?_eq_none.mp found edge mem
    | some other =>
      have same := find?_some found
      rw [Bool.and_eq_true, beq_iff_eq] at same
      rw [inj_on_of_nodup_map graph.unique (mem_of_find?_eq_some found) mem same.1]
      exact ⟨edge, rfl, leads⟩
  · rintro ⟨edge, found, leads⟩
    have fits := find?_some found
    rw [Bool.and_eq_true, beq_iff_eq] at fits
    exact ⟨edge, mem_of_find?_eq_some found, fits.1, fits.2, leads⟩

theorem walk_iff : graph.Walk op.pattern source ids target ↔
    ∃ relationships, ids.mapM (op.edgeById graph) = some relationships ∧ op.follow relationships source = some target := by
  induction ids generalizing source with
  | nil => simp [Graph.Walk, follow]
  | cons id rest ih =>
    simp only [Graph.Walk, leads_iff, ih, mapM_cons, bind_eq_bind, bind_eq_some_iff, Option.pure_def, Option.some.injEq]
    constructor
    · rintro ⟨middle, ⟨edge, found, leads⟩, relationships, others, follows⟩
      exact ⟨edge :: relationships, ⟨edge, found, relationships, others, rfl⟩, by simpa [follow, leads] using follows⟩
    · rintro ⟨_, ⟨edge, found, relationships, others, rfl⟩, follows⟩
      obtain ⟨middle, leads, follows⟩ := bind_eq_some_iff.mp follows
      exact ⟨middle, ⟨edge, found, leads⟩, relationships, others, follows⟩

theorem mem_starts {first : Relationship} {next : Nat} (leads : op.pattern.direction.next first source = some next) :
    source ∈ op.starts first := by
  unfold starts
  unfold Direction.next at leads
  grind

theorem nodup_starts : (op.starts first).Nodup := by
  unfold starts
  grind

theorem output_isSome : (op.output input (source, target)).isSome ↔
    (Free input op.fromNode source ∧ Free input op.toNode target) ∧ (op.fromNode = op.toNode → source = target) := by
  have free : ∀ name node, Free input name node ↔ ∀ held, input name = some held → held = .node node := by
    intro name node
    cases held : input name <;> simp [Free, held]
  simp only [output, isSome_iff_exists, bind_eq_some_iff, Bindings.tryBind_eq_some]
  by_cases same : op.toNode = op.fromNode
  · simp [same, free]
    grind
  · simp [same, free, Ne.symm same]

theorem trail_iff : ids.Nodup ∧ graph.Walk op.pattern source ids target ↔
    ∃ relationships, op.existing graph ids = some relationships ∧ op.follow relationships source = some target := by
  by_cases nodup : ids.Nodup <;> simp [existing, nodup, walk_iff]

theorem leads_source {id : Nat} (leads : graph.Leads op.pattern source id target) : source ∈ graph.nodes := by
  obtain ⟨edge, mem, -, -, next⟩ := leads
  have := graph.startNode_mem edge mem
  have := graph.endNode_mem edge mem
  unfold Direction.next at next
  grind

theorem mem_endpoints {first : Relationship} {rest : List Relationship} :
    (source, target) ∈ op.endpoints first rest ↔ op.follow (first :: rest) source = some target := by
  simp only [endpoints, mem_filterMap, map_eq_some_iff, Prod.mk.injEq]
  constructor
  · rintro ⟨_, -, _, follows, rfl, rfl⟩
    exact follows
  · intro follows
    obtain ⟨middle, leads, -⟩ := bind_eq_some_iff.mp follows
    exact ⟨source, mem_starts leads, target, follows, rfl, rfl⟩

theorem nodup_endpoints (rest : List Relationship) : (op.endpoints first rest).Nodup := by
  refine (nodup_starts first).filterMap fun one two pair left right => ?_
  simp only [mem_def, map_eq_some_iff] at left right
  grind

/-- Nodes of the graph, each pair once; of the pairs that agree with the row, those that hold. -/
structure Exact (op : ProjectEndpointsOp) (graph : Graph) (input : Bindings) (holds : Nat → Nat → Prop)
    (pairs : List (Nat × Nat)) : Prop where
  nodup : pairs.Nodup
  inside : ∀ pair ∈ pairs, pair.1 ∈ graph.nodes ∧ pair.2 ∈ graph.nodes
  mem_iff : ∀ source target, (op.output input (source, target)).isSome → ((source, target) ∈ pairs ↔ holds source target)

variable (typed : op.Typed graph input)

include typed

theorem emptyEndpoints_exact (known : input op.fromNode ≠ none ∨ input op.toNode ≠ none) :
    ∃ pairs, op.emptyEndpoints input = some pairs ∧ op.Exact graph input Eq pairs := by
  unfold emptyEndpoints
  cases left : input op.fromNode with
  | some held =>
    rcases typed.nodes _ mem_cons_self held left with rfl | ⟨id, mem, rfl⟩
    · exact ⟨[], rfl, nodup_nil, by simp, by simp [output_isSome, Free, left]⟩
    · exact ⟨[(id, id)], rfl, nodup_singleton _, by simp [mem], by simp [output_isSome, Free, left]; grind⟩
  | none =>
    obtain ⟨held, right⟩ := ne_none_iff_exists'.mp (known.resolve_left (absurd left))
    rw [right]
    rcases typed.nodes _ (mem_cons_of_mem _ mem_cons_self) held right with rfl | ⟨id, mem, rfl⟩
    · exact ⟨[], rfl, nodup_nil, by simp, by simp [output_isSome, Free, right]⟩
    · exact ⟨[(id, id)], rfl, nodup_singleton _, by simp [mem], by simp [output_isSome, Free, right]⟩

theorem prepareEndpoints_exact (planned : op.Planned input) : ∃ pairs,
    op.prepareEndpoints graph input = some pairs ∧ op.Exact graph input (fun source target =>
      ∃ ids, op.Binds input ids ∧ ids.Nodup ∧ graph.Walk op.pattern source ids target) pairs := by
  obtain ⟨bound, isBound⟩ := isSome_iff_exists.mp typed.relationships
  simp only [prepareEndpoints, isBound, bind_some, ← relationshipIds_eq_some, some.injEq, trail_iff]
  cases bound with
  | none => exact ⟨[], rfl, nodup_nil, by simp, by simp⟩
  | some ids =>
    simp only [bind_some, some.injEq, exists_eq_left']
    cases found : op.existing graph ids with
    | none => exact ⟨[], rfl, nodup_nil, by simp, by simp⟩
    | some relationships =>
      simp only [some.injEq, exists_eq_left']
      cases relationships with
      | nil =>
        have empty : ids = [] := by
          cases ids with
          | nil => rfl
          | cons => simp [existing, bind_eq_some_iff] at found
        rw [empty, relationshipIds_eq_some] at isBound
        simpa [follow] using emptyEndpoints_exact typed (planned.resolve_left isBound.length_pos)
      | cons first rest =>
        refine ⟨_, rfl, nodup_endpoints first rest, fun pair mem => ?_, fun _ _ _ => mem_endpoints⟩
        obtain ⟨-, walk⟩ := trail_iff.mpr ⟨_, found, mem_endpoints.mp mem⟩
        cases ids with
        | nil => simp [existing] at found
        | cons id ids =>
          obtain ⟨middle, leads, walk⟩ := walk
          exact ⟨leads_source leads, walk.inside leads.inside⟩

theorem project_exact (planned : op.Planned input) : ∃ rows,
    op.project graph input = some rows ∧ (rows.map Prod.fst).Nodup ∧ ∀ source target row,
      ((source, target), row) ∈ rows ↔
        op.Matches graph input source target ∧ op.output input (source, target) = some row := by
  obtain ⟨pairs, prepared, nodup, inside, mem_iff⟩ := prepareEndpoints_exact typed planned
  refine ⟨_, by rw [project, prepared, bind_some, if_pos inside], ?_, fun source target row => ?_⟩
  · rw [map_filterMap]
    refine nodup.filterMap fun one two pair left right => ?_
    simp only [Option.mem_def, Option.map_map, Option.map_eq_some_iff] at left right
    grind
  simp only [mem_filterMap, Option.map_eq_some_iff, Prod.mk.injEq]
  constructor
  · rintro ⟨_, mem, _, bound, rfl, rfl⟩
    have agrees := isSome_of_eq_some bound
    obtain ⟨ends, loop⟩ := output_isSome.mp agrees
    exact ⟨⟨(mem_iff source target agrees).mp mem, inside _ mem, ends, loop⟩, bound⟩
  · rintro ⟨isMatch, bound⟩
    exact ⟨_, (mem_iff source target (isSome_of_eq_some bound)).mpr isMatch.trail, row, bound, rfl, rfl⟩

omit typed

/-- (a)-[rs*0..]-(b) where rs is an empty list. -/
def zeroOrMore : ProjectEndpointsOp := ⟨⟨"rs", [], some ⟨some 0, none⟩, .both⟩, "a", "b"⟩

def emptyList (left : Option Bound) : Bindings :=
  fun name => if name = "rs" then some (.relationships []) else if name = "a" then left else none

/-- Where no endpoint is bound, the operator finds none of the nodes. -/
theorem project_emptyList :
    zeroOrMore.project VarExpandOp.twoRelationships (emptyList none) = some [] ∧
      zeroOrMore.Matches VarExpandOp.twoRelationships (emptyList none) 1 1 :=
  ⟨rfl, ⟨[], ⟨rfl, rfl⟩, nodup_nil, rfl⟩, by decide, ⟨.inl rfl, .inl rfl⟩, fun _ => rfl⟩

/-- (a)-[rs:T*1..]-(b). -/
def oneOrMore : ProjectEndpointsOp := ⟨⟨"rs", ["T"], some ⟨some 1, none⟩, .both⟩, "a", "b"⟩

def parallel : Graph where
  nodes := [1, 2]
  relationships := [⟨7, "T", 1, 2⟩, ⟨8, "T", 1, 2⟩]
  unique := by decide
  startNode_mem := by decide
  endNode_mem := by decide

def listOf (ids : List Nat) : Bindings := fun name => if name = "rs" then some (.relationships ids) else none

/-- There and back over two relationships, from either of their ends. -/
theorem project_parallel : ∃ first second : Bindings,
    oneOrMore.project parallel (listOf [7, 8]) = some [((1, 1), first), ((2, 2), second)] ∧
      first "a" = some (.node 1) ∧ first "b" = some (.node 1) ∧ second "a" = some (.node 2) ∧
      second "b" = some (.node 2) ∧ first "rs" = some (.relationships [7, 8]) ∧
      oneOrMore.Matches parallel (listOf [7, 8]) 1 1 ∧ oneOrMore.Matches parallel (listOf [7, 8]) 2 2 ∧
      ¬ oneOrMore.Matches parallel (listOf [7, 8]) 1 2 := by
  have typed : oneOrMore.Typed parallel (listOf [7, 8]) := ⟨rfl, by simp [oneOrMore, listOf]⟩
  obtain ⟨rows, projected, -, mem⟩ := project_exact typed (.inl rfl)
  cases projected
  refine ⟨_, _, rfl, rfl, rfl, rfl, rfl, rfl, ((mem 1 1 _).mp mem_cons_self).1,
    ((mem 2 2 _).mp (mem_cons_of_mem _ mem_cons_self)).1, fun isMatch => ?_⟩
  have listed := mem_map_of_mem (f := Prod.fst) ((mem 1 2 _).mpr ⟨isMatch, rfl⟩)
  exact absurd listed (by decide)

end ProjectEndpointsOp

end RocksGraph.Query
