import RocksGraph.Query.Pattern

/-! The explicit stack of `VarExpandOperator` (`physical_executor_scan.cc`).

The operator searches depth first, with one frame for each node of the current
path. It is compared with the list of all trails that the recursive search gives. -/

set_option autoImplicit false

namespace RocksGraph.Query

open List Option

/-- `VarExpandOp`; the slots of the row are names. -/
structure VarExpandOp where
  pattern : RelationshipPattern
  length : Range
  fromNode : String
  toNode : String
  reverseRelationships : Bool

namespace VarExpandOp

/-- The cursor is loaded when the frame is expanded first. -/
structure Frame where
  node : Nat
  graphdbCursor : Option (List Relationship)
  emitted : Bool

/-- `VarExpandOperator`. The frames and the path have their last elements first; `used_` and `path_references_` have
the relationships of `path_`. -/
structure Operator where
  source : List Bindings
  input : Bindings
  boundTo : Option Nat
  frames : List Frame
  path : List Nat

variable (op : VarExpandOp) (graph : Graph)

/-- `NewEdgeIterator`: every relationship of the types at the node in the direction, once. -/
def newEdgeIterator (node : Nat) : List Relationship :=
  graph.relationships.filter fun edge => op.pattern.allows edge && (op.pattern.direction.next edge node).isSome

/-- The loop over the cursor, up to an edge that is not used. -/
def advance (node : Nat) (used : List Nat) : List Relationship → Option ((Nat × Nat) × List Relationship)
  | [] => none
  | edge :: rest =>
    if edge.id ∈ used then advance node used rest
    else match op.pattern.direction.next edge node with
      | none => advance node used rest
      | some next => some ((edge.id, next), rest)

/-- The row for a path, if it agrees with what the input row has in the slots. -/
def output (input : Bindings) (trail : List Nat × Nat) : Option Bindings :=
  (input.tryBind op.pattern.name
    (.relationships (if op.reverseRelationships then trail.1.reverse else trail.1))).bind fun row =>
      row.tryBind op.toNode (.node trail.2)

/-- The first node for the next input row and the one to end in; `none` passes over the row. A slot with anything but a
node or null, which throws, is not met; nor is a first node that the store does not have, of which `GraphDBVertexById`
throws when the frame is expanded. -/
def start (input : Bindings) : Option (Nat × Option Nat) :=
  if op.length.max.all (op.length.atLeast ≤ ·) then
    match input op.fromNode, input op.toNode with
    | some (.node source), none => some (source, none)
    | some (.node source), some (.node target) => some (source, some target)
    | _, _ => none
  else none

def pop (operator : Operator) : Operator :=
  { operator with frames := operator.frames.tail, path := operator.path.tail }

/-- One round of `NextGraphDB`; a round that emits the frame ends there. `none` closes the operator. -/
def step (operator : Operator) : Option (Operator × Option Bindings) :=
  match operator.frames with
  | [] =>
    match operator.source with
    | [] => none
    | input :: rest =>
      match op.start input with
      | none => some ({ operator with source := rest }, none)
      | some (node, boundTo) =>
        some ({ operator with source := rest, input := input, boundTo := boundTo, frames := [⟨node, none, false⟩] }, none)
  | frame :: below =>
    if frame.emitted = false then
      some ({ operator with frames := { frame with emitted := true } :: below },
        if op.length.atLeast ≤ operator.path.length ∧ operator.boundTo.all (frame.node = ·) then
          op.output operator.input (operator.path.reverse, frame.node)
        else none)
    else if op.length.max = some operator.path.length then some (pop operator, none)
    else match op.advance frame.node operator.path (frame.graphdbCursor.getD (op.newEdgeIterator graph frame.node)) with
      | none => some (pop operator, none)
      | some ((id, next), cursor) =>
        some ({ operator with
          frames := ⟨next, none, false⟩ :: { frame with graphdbCursor := some cursor } :: below
          path := id :: operator.path }, none)

/-- The rows up to the end of the input; `none` where the fuel does not suffice. -/
def run : Nat → Operator → Option (List Bindings)
  | 0, _ => none
  | fuel + 1, operator =>
    match op.step graph operator with
    | none => some []
    | some (next, row) => (run fuel next).map (row.toList ++ ·)

def Operator.opened (rows : List Bindings) : Operator := ⟨rows, fun _ => none, none, [], []⟩

/-- The trails that an input row asks for. -/
structure IsTrail (input : Bindings) (path : List Nat) (target : Nat) : Prop where
  walk : ∃ source, input op.fromNode = some (.node source) ∧ graph.Walk op.pattern source path target
  bound : input op.toNode = none ∨ input op.toNode = some (.node target)
  nodup : path.Nodup
  admitted : op.length.admits path.length

def rowOf (input : Bindings) (path : List Nat) (target : Nat) : Bindings :=
  Function.update (Function.update input op.pattern.name
    (some (.relationships (if op.reverseRelationships then path.reverse else path)))) op.toNode (some (.node target))

variable {op graph}

variable (op graph) in
/-- The operator gives these rows on its way from one state to another. -/
def Yields (operator : Operator) (rows : List Bindings) (next : Operator) : Prop :=
  ∃ rounds, ∀ fuel, op.run graph (fuel + rounds) operator = (op.run graph fuel next).map (rows ++ ·)

section Rounds

variable {operator middle next : Operator} {rows more : List Bindings} {row : Option Bindings}

theorem Yields.of_step (stepped : op.step graph operator = some (next, row)) :
    op.Yields graph operator row.toList next :=
  ⟨1, fun fuel => by rw [run, stepped]⟩

theorem Yields.trans (first : op.Yields graph operator rows middle) (second : op.Yields graph middle more next) :
    op.Yields graph operator (rows ++ more) next := by
  obtain ⟨rounds, firstRun⟩ := first
  obtain ⟨rounds', secondRun⟩ := second
  refine ⟨rounds' + rounds, fun fuel => ?_⟩
  rw [← Nat.add_assoc, firstRun, secondRun, Option.map_map]
  congr 1
  funext later
  exact (append_assoc rows more later).symm

theorem Yields.congr (yields : op.Yields graph middle rows next)
    (same : op.step graph operator = op.step graph middle) : op.Yields graph operator rows next := by
  have runs (fuel : Nat) : op.run graph fuel operator = op.run graph fuel middle := by
    cases fuel with
    | zero => rfl
    | succ fuel => rw [run, run, same]
  simpa only [Yields, runs] using yields

end Rounds

variable (op) in
/-- The rows for the trails that continue a path, its last relationship first. -/
def found (input : Bindings) (boundTo : Option Nat) (path : List Nat) (trails : List (List Nat × Nat)) :
    List Bindings :=
  trails.filterMap fun trail =>
    if boundTo.all (trail.2 = ·) then op.output input (path.reverse ++ trail.1, trail.2) else none

variable {source : List Bindings} {input : Bindings} {boundTo : Option Nat} {frames : List Frame} {path : List Nat}
  {node : Nat}

theorem found_append (first second : List (List Nat × Nat)) : op.found input boundTo path (first ++ second) =
    op.found input boundTo path first ++ op.found input boundTo path second :=
  filterMap_append

theorem found_cons (id : Nat) (trails : List (List Nat × Nat)) :
    op.found input boundTo path (trails.map fun trail => (id :: trail.1, trail.2)) =
      op.found input boundTo (id :: path) trails := by
  simp [found]

theorem edges_eq : graph.edges op.pattern node = (op.newEdgeIterator graph node).filterMap fun edge =>
    (op.pattern.direction.next edge node).map (edge.id, ·) := by
  rw [newEdgeIterator, Graph.edges, filterMap_filter]
  congr 1
  funext edge
  cases op.pattern.allows edge <;> cases op.pattern.direction.next edge node <;> simp

variable (op graph source input boundTo path) in
/-- The frame of each edge that is not used yields the trails behind it. -/
def YieldsBehind (behind : Nat × Nat → List (List Nat × Nat)) : Prop :=
  ∀ edge frames, edge.1 ∉ path → edge.1 ∈ graph.relationships.map (·.id) →
    op.Yields graph ⟨source, input, boundTo, ⟨edge.2, none, false⟩ :: frames, edge.1 :: path⟩
      (op.found input boundTo (edge.1 :: path) (behind edge)) ⟨source, input, boundTo, frames, path⟩

/-- The trails through the edges that are not used. -/
def through (path : List Nat) (edges : List (Nat × Nat)) (behind : Nat × Nat → List (List Nat × Nat)) :
    List (List Nat × Nat) :=
  (edges.filter fun edge => decide (edge.1 ∉ path)).flatMap fun edge =>
    (behind edge).map fun trail => (edge.1 :: trail.1, trail.2)

variable {behind : Nat × Nat → List (List Nat × Nat)}

theorem yields_cursor {edges : List Relationship} (inside : edges ⊆ graph.relationships)
    (free : op.length.max ≠ some path.length) (yields : op.YieldsBehind graph source input boundTo path behind) :
    op.Yields graph ⟨source, input, boundTo, ⟨node, some edges, true⟩ :: frames, path⟩
      (op.found input boundTo path (through path
        (edges.filterMap fun edge => (op.pattern.direction.next edge node).map (edge.id, ·)) behind))
      ⟨source, input, boundTo, frames, path.tail⟩ := by
  induction edges with
  | nil =>
    have popped : op.step graph ⟨source, input, boundTo, ⟨node, some [], true⟩ :: frames, path⟩ =
        some (⟨source, input, boundTo, frames, path.tail⟩, none) := by
      simp [step, advance, pop]
    exact .of_step popped
  | cons edge rest ih =>
    have later := ih fun other mem => inside (mem_cons_of_mem edge mem)
    cases leads : op.pattern.direction.next edge node with
    | none =>
      simp only [filterMap_cons, leads]
      exact later.congr (by simp [step, advance, leads, pop])
    | some target =>
      by_cases used : edge.id ∈ path
      · simp only [through, filterMap_cons, leads, map_some, filter_cons, used]
        exact later.congr (by simp [step, advance, used, pop])
      simp only [through, filterMap_cons, leads, map_some, filter_cons, used, not_false_eq_true,
        decide_true, if_true, flatMap_cons, found_append, found_cons]
      have pushed : op.step graph ⟨source, input, boundTo, ⟨node, some (edge :: rest), true⟩ :: frames, path⟩ =
          some (⟨source, input, boundTo, ⟨target, none, false⟩ :: ⟨node, some rest, true⟩ :: frames, edge.id :: path⟩,
            none) := by
        simp [step, free, advance, used, leads]
      have mem : edge.id ∈ graph.relationships.map (·.id) := mem_map_of_mem (inside mem_cons_self)
      exact (Yields.of_step pushed).trans ((yields (edge.id, target) _ used mem).trans later)

theorem yields_emitted (yields : op.YieldsBehind graph source input boundTo path behind) :
    op.Yields graph ⟨source, input, boundTo, ⟨node, none, true⟩ :: frames, path⟩
      (op.found input boundTo path
        (if op.length.max = some path.length then [] else through path (graph.edges op.pattern node) behind))
      ⟨source, input, boundTo, frames, path.tail⟩ := by
  by_cases full : op.length.max = some path.length
  · rw [if_pos full]
    have popped : op.step graph ⟨source, input, boundTo, ⟨node, none, true⟩ :: frames, path⟩ =
        some (⟨source, input, boundTo, frames, path.tail⟩, none) := by
      simp [step, full, pop]
    exact .of_step popped
  · rw [if_neg full, edges_eq]
    have inside : op.newEdgeIterator graph node ⊆ graph.relationships := filter_subset_self _
    -- An empty cursor and a loaded one make the same round.
    exact (yields_cursor inside full yields).congr (by simp [step, pop])

theorem yields_fresh (yields : op.YieldsBehind graph source input boundTo path behind) :
    op.Yields graph ⟨source, input, boundTo, ⟨node, none, false⟩ :: frames, path⟩
      (op.found input boundTo path ((if op.length.atLeast ≤ path.length then [([], node)] else []) ++
        if op.length.max = some path.length then [] else through path (graph.edges op.pattern node) behind))
      ⟨source, input, boundTo, frames, path.tail⟩ := by
  let row := if op.length.atLeast ≤ path.length ∧ boundTo.all (node = ·) then op.output input (path.reverse, node) else none
  have emitted : op.step graph ⟨source, input, boundTo, ⟨node, none, false⟩ :: frames, path⟩ =
      some (⟨source, input, boundTo, ⟨node, none, true⟩ :: frames, path⟩, row) := rfl
  have rows : op.found input boundTo path (if op.length.atLeast ≤ path.length then [([], node)] else []) = row.toList := by
    by_cases long : op.length.atLeast ≤ path.length
    · by_cases fits : boundTo.all (node = ·)
      · cases done : op.output input (path.reverse, node) <;> simp [found, row, long, fits, done]
      · simp [found, row, fits]
    · simp [found, row, long]
  rw [found_append, rows]
  exact (Yields.of_step emitted).trans (yields_emitted yields)

theorem yields_frame {fuel : Nat} (nodup : path.Nodup) (inside : path ⊆ graph.relationships.map (·.id))
    (enough : graph.relationships.length ≤ path.length + fuel) :
    op.Yields graph ⟨source, input, boundTo, ⟨node, none, false⟩ :: frames, path⟩
      (op.found input boundTo path (graph.trails op.pattern op.length fuel node path))
      ⟨source, input, boundTo, frames, path.tail⟩ := by
  induction fuel generalizing node path frames with
  | zero =>
    -- Every relationship is used.
    have all : graph.relationships.map (·.id) ⊆ path :=
      ((nodup.subperm inside).perm_of_length_le (by simpa using enough)).symm.subset
    have yields : op.YieldsBehind graph source input boundTo path fun _ => [] :=
      fun edge frames unused mem => absurd (all mem) unused
    have none : through path (graph.edges op.pattern node) (fun _ => []) = [] :=
      flatMap_eq_nil_iff.mpr fun _ _ => rfl
    have fresh := @yields_fresh op graph source input boundTo frames path node _ yields
    rw [none] at fresh
    exact fresh
  | succ fuel ih =>
    apply yields_fresh
    intro edge frames unused mem
    exact ih (nodup_cons.mpr ⟨unused, nodup⟩) (cons_subset.mpr ⟨mem, inside⟩)
      (by rw [length_cons]; omega)

/-! ## Input rows -/

variable (op graph) in
def trailsOf (input : Bindings) : List (List Nat × Nat) :=
  match op.start input with
  | none => []
  | some (node, boundTo) =>
    (graph.trails op.pattern op.length graph.relationships.length node []).filter fun trail =>
      boundTo.all (trail.2 = ·)

theorem yields_rows (rows : List Bindings) : ∃ last boundTo',
    op.Yields graph ⟨rows, input, boundTo, [], []⟩ (rows.flatMap fun input =>
      (op.trailsOf graph input).filterMap (op.output input)) ⟨[], last, boundTo', [], []⟩ := by
  induction rows generalizing input boundTo with
  | nil => exact ⟨input, boundTo, 0, fun fuel => by simp⟩
  | cons first rest ih =>
    rw [flatMap_cons]
    cases started : op.start first with
    | none =>
      obtain ⟨last, boundTo', later⟩ := @ih input boundTo
      have passed : op.step graph ⟨first :: rest, input, boundTo, [], []⟩ =
          some (⟨rest, input, boundTo, [], []⟩, none) := by
        simp [step, started]
      rw [trailsOf, started]
      exact ⟨last, boundTo', (Yields.of_step passed).trans later⟩
    | some ends =>
      obtain ⟨node, target⟩ := ends
      obtain ⟨last, boundTo', later⟩ := @ih first target
      have pushed : op.step graph ⟨first :: rest, input, boundTo, [], []⟩ =
          some (⟨rest, first, target, [⟨node, none, false⟩], []⟩, none) := by
        simp [step, started]
      have explored := @yields_frame op graph rest first target [] [] node graph.relationships.length
        nodup_nil (nil_subset _) (by simp)
      have rows : op.found first target [] (graph.trails op.pattern op.length graph.relationships.length node []) =
          (op.trailsOf graph first).filterMap (op.output first) := by
        simp [found, trailsOf, started, filterMap_filter]
      rw [rows] at explored
      exact ⟨last, boundTo', (Yields.of_step pushed).trans (explored.trans later)⟩

theorem pairwise_edges : (graph.edges op.pattern node).Pairwise fun first second => first.1 ≠ second.1 := by
  refine List.Pairwise.filterMap _ ?_ (pairwise_map.mp graph.unique)
  have named (relationship : Relationship) (edge : Nat × Nat) (leads : (if op.pattern.allows relationship then
      (op.pattern.direction.next relationship node).map (relationship.id, ·) else none) = some edge) :
      edge.1 = relationship.id := by
    split at leads
    · obtain ⟨target, -, rfl⟩ := map_eq_some_iff.mp leads
      rfl
    · cases leads
  intro first second apart edge leads edge' leads'
  rw [named first edge leads, named second edge' leads']
  exact apart

theorem nodup_trails {fuel : Nat} : (graph.trails op.pattern op.length fuel node path).Nodup := by
  induction fuel generalizing node path with
  | zero =>
    rw [Graph.trails_eq]
    split <;> simp
  | succ fuel ih =>
    refine List.Nodup.append (by split <;> simp) ?_ ?_
    · split
      · exact nodup_nil
      refine nodup_flatMap.mpr ⟨fun edge _ => ih.map ?_, (pairwise_edges.filter _).imp ?_⟩
      · rintro ⟨first, target⟩ ⟨second, target'⟩ same
        simpa using same
      · rintro edge edge' apart trail mem member'
        obtain ⟨_, -, rfl⟩ := List.mem_map.mp mem
        obtain ⟨_, -, same⟩ := List.mem_map.mp member'
        exact apart (cons.inj (Prod.mk.inj same).1).1.symm
    · intro trail mem member'
      split at mem <;> split at member' <;> simp_all

theorem mem_trailsOf {target : Nat} :
    (path, target) ∈ op.trailsOf graph input ↔ op.IsTrail graph input path target := by
  have ordered : op.length.admits path.length → op.length.max.all (op.length.atLeast ≤ ·) := by
    rw [Range.admits_iff]
    rintro ⟨long, short⟩
    cases given : op.length.max with
    | none => rfl
    | some bound => simpa using Nat.le_trans long (short bound given)
  constructor
  · intro mem
    unfold trailsOf start at mem
    split at mem
    · cases mem
    next source boundTo started =>
      obtain ⟨found, fits⟩ := mem_filter.mp mem
      obtain ⟨walk, admitted, nodup⟩ := Graph.mem_trails_nil.mp found
      rw [if_pos (ordered admitted)] at started
      split at started <;> cases started
      next free isNode => exact ⟨⟨_, isNode, walk⟩, .inl free, nodup, admitted⟩
      next isBound isNode => exact ⟨⟨_, isNode, walk⟩, .inr (by simp_all), nodup, admitted⟩
  · rintro ⟨⟨source, isNode, walk⟩, bound, nodup, admitted⟩
    have found := Graph.mem_trails_nil.mpr ⟨walk, admitted, nodup⟩
    unfold trailsOf start
    rw [if_pos (ordered admitted)]
    obtain free | isBound := bound
    · simpa [isNode, free] using found
    · simpa [isNode, isBound] using found

variable (op graph) in
/-- The operator ends, and gives one row for each trail of each input row: its relationships in the order in which it
follows them, or in the opposite one if they are to be reversed. What the input row has in the slots of the row has to
agree. -/
theorem rows_exact (rows : List Bindings) :
    (∃ fuel, op.run graph fuel (.opened rows) =
      some (rows.flatMap fun input => (op.trailsOf graph input).filterMap (op.output input))) ∧
    ∀ input, (op.trailsOf graph input).Nodup ∧
      (∀ path target, (path, target) ∈ op.trailsOf graph input ↔ op.IsTrail graph input path target) ∧
      (input op.pattern.name = none → op.pattern.name ≠ op.toNode →
        ∀ path target, op.IsTrail graph input path target →
          op.output input (path, target) = some (op.rowOf input path target)) := by
  constructor
  · obtain ⟨last, boundTo, rounds, yields⟩ := @yields_rows op graph (fun _ => none) none rows
    refine ⟨1 + rounds, (yields 1).trans ?_⟩
    simp [run, step]
  · intro input
    refine ⟨?_, fun path target => mem_trailsOf, fun unbound apart path target isTrail => ?_⟩
    · unfold trailsOf
      split
      · exact nodup_nil
      · exact nodup_trails.filter _
    · obtain free | isBound := isTrail.bound
      · simp [output, rowOf, Bindings.tryBind, unbound, Function.update_of_ne apart.symm, free]
      · simp [output, rowOf, Bindings.tryBind, unbound, Function.update_of_ne apart.symm, isBound]

/-- A path of two relationships. -/
def twoRelationships : Graph where
  nodes := [1, 2, 3]
  relationships := [⟨1, "T", 1, 2⟩, ⟨2, "T", 2, 3⟩]
  unique := by decide
  startNode_mem := by decide
  endNode_mem := by decide

def reversed : VarExpandOp := ⟨⟨"r", [], none, .outgoing⟩, ⟨some 2, some 2⟩, "a", "b", true⟩

/-- A row with the first node, and with relationships in the slot for them. -/
def fromFirst (relationships : Option (List Nat)) : Bindings
  | "a" => some (.node 1)
  | "r" => relationships.map .relationships
  | _ => none

/-- Relationship 1 is followed before relationship 2, and the list has it behind. A row that has a list already is kept
with this list and dropped with the one in the order of the trail. -/
theorem relationships_reversed :
    (reversed.run twoRelationships 12 (.opened [fromFirst none])).map (·.map fun row => (row "r", row "b")) =
        some [(some (.relationships [2, 1]), some (.node 3))] ∧
    (reversed.run twoRelationships 24 (.opened [fromFirst (some [1, 2]), fromFirst (some [2, 1])])).map
        (·.map fun row => (row "r", row "b")) = some [(some (.relationships [2, 1]), some (.node 3))] ∧
    twoRelationships.Walk reversed.pattern 1 [1, 2] 3 := by
  refine ⟨by decide +kernel, by decide +kernel, 2, ⟨⟨1, "T", 1, 2⟩, ?_⟩, 3, ⟨⟨2, "T", 2, 3⟩, ?_⟩, rfl⟩ <;> decide

end VarExpandOp

end RocksGraph.Query
