import Mathlib.Data.List.Nodup
import Mathlib.Data.List.Perm.Subperm
import Mathlib.Logic.Function.Basic
import RocksGraph.Foundation.Check

/-! Patterns over a graph and the rows that expanding them produces
(`query_ir_graph_builder.cc`, `physical_executor_scan.cc`).

A part of a pattern is expanded from left to right, one relationship after the
other. A variable-length relationship is followed along all trails: paths that
use no relationship twice. -/

set_option autoImplicit false

namespace RocksGraph.Query

open List Option

structure Relationship where
  id : Nat
  type : String
  startNode : Nat
  endNode : Nat
  deriving DecidableEq

structure Graph where
  nodes : List Nat
  relationships : List Relationship
  unique : (relationships.map (·.id)).Nodup
  startNode_mem : ∀ relationship ∈ relationships, relationship.startNode ∈ nodes
  endNode_mem : ∀ relationship ∈ relationships, relationship.endNode ∈ nodes

inductive Direction where
  | outgoing
  | incoming
  | both
  deriving DecidableEq

/-- `ast::Range`: a missing minimum is 1, a missing maximum no bound. -/
structure Range where
  min : Option Nat
  max : Option Nat
  deriving DecidableEq

/-- `ast::RelationshipDetail` with its direction; every relationship has a name by now. -/
structure RelationshipPattern where
  name : String
  types : List String
  range : Option Range
  direction : Direction
  deriving DecidableEq

/-- `ast::PatternPart`: a node and the relationships and nodes that follow it. -/
structure PatternPart where
  shortestPath : Bool
  start : String
  chain : List (RelationshipPattern × String)

abbrev Pattern := List PatternPart

/-- What a name of a row is bound to; relationships are told apart by id. -/
inductive Bound where
  | null
  | node (id : Nat)
  | relationship (id : Nat)
  | relationships (ids : List Nat)
  deriving DecidableEq

abbrev Bindings := String → Option Bound

/-- `NextPhysicalExpandNode`: where the relationship leads from a node. -/
def Direction.next (direction : Direction) (relationship : Relationship) (source : Nat) : Option Nat :=
  match direction with
  | .outgoing => if relationship.startNode = source then some relationship.endNode else none
  | .incoming => if relationship.endNode = source then some relationship.startNode else none
  | .both =>
    if relationship.startNode = source then some relationship.endNode
    else if relationship.endNode = source then some relationship.startNode
    else none

def RelationshipPattern.allows (pattern : RelationshipPattern) (relationship : Relationship) : Bool :=
  pattern.types.isEmpty || pattern.types.contains relationship.type

def Graph.edges (graph : Graph) (pattern : RelationshipPattern) (source : Nat) : List (Nat × Nat) :=
  graph.relationships.filterMap fun relationship =>
    if pattern.allows relationship then (pattern.direction.next relationship source).map (relationship.id, ·) else none

def Range.atLeast (range : Range) : Nat := range.min.getD 1

def Range.admits (range : Range) (length : Nat) : Bool :=
  decide (range.atLeast ≤ length) && range.max.all fun bound => decide (length ≤ bound)

variable {range : Range} {graph : Graph} {pattern : RelationshipPattern} {source target : Nat}
  {path used : List Nat} {row : Bindings}

theorem Range.admits_iff {length : Nat} :
    range.admits length ↔ range.atLeast ≤ length ∧ ∀ bound ∈ range.max, length ≤ bound := by
  cases given : range.max <;> simp [admits, given]

/-- `VarExpandOperator`: the paths from a frame, whose path so far used these relationships. A frame is emitted when
its path is long enough, before the longer paths through it. -/
def Graph.trails (graph : Graph) (pattern : RelationshipPattern) (range : Range) :
    (fuel source : Nat) → (used : List Nat) → List (List Nat × Nat)
  | fuel, source, used =>
    (if range.atLeast ≤ used.length then [([], source)] else []) ++
      if range.max = some used.length then []
      else match fuel with
        | 0 => []
        | fuel + 1 =>
          ((graph.edges pattern source).filter fun edge => decide (edge.1 ∉ used)).flatMap fun edge =>
            (Graph.trails graph pattern range fuel edge.2 (edge.1 :: used)).map fun trail => (edge.1 :: trail.1, trail.2)

/-- What a shortest-path part finds from a node: the relationships of each path and the node it ends in. The search
is a parameter; it stays inside the graph. -/
structure ShortestPaths where
  paths : Graph → RelationshipPattern → Nat → List (List Nat × Nat)
  inside : ∀ graph pattern source path target, (path, target) ∈ paths graph pattern source → target ∈ graph.nodes

def noShortestPaths : ShortestPaths := ⟨fun _ _ _ => [], nofun⟩

def Graph.candidates (shortest : ShortestPaths) (graph : Graph) (shortestPath : Bool) (pattern : RelationshipPattern)
    (source : Nat) : List (Bound × Nat) :=
  if shortestPath then (shortest.paths graph pattern source).map fun path => (.relationships path.1, path.2)
  else match pattern.range with
    | none => (graph.edges pattern source).map fun edge => (.relationship edge.1, edge.2)
    | some range =>
      (graph.trails pattern range graph.relationships.length source []).map fun trail => (.relationships trail.1, trail.2)

/-- `TryBindAt`: a name that is bound already has to be bound to this. -/
def Bindings.tryBind (row : Bindings) (name : String) (value : Bound) : Option Bindings :=
  match row name with
  | none => some (Function.update row name (some value))
  | some held => if held = value then some row else none

variable {id : Nat}

namespace Graph

/-- `ExpandOperator` and `VarExpandOperator` for one row. -/
def expand (shortest : ShortestPaths) (graph : Graph) (shortestPath : Bool) (pattern : RelationshipPattern)
    (left right : String) (row : Bindings) : List Bindings :=
  match row left with
  | some (.node source) =>
    (graph.candidates shortest shortestPath pattern source).filterMap fun candidate =>
      (row.tryBind pattern.name candidate.1).bind fun bound => bound.tryBind right (.node candidate.2)
  | _ => []

def expandChain (shortest : ShortestPaths) (graph : Graph) (shortestPath : Bool) :
    List (RelationshipPattern × String) → String → Bindings → List Bindings
  | [], _, row => [row]
  | (pattern, right) :: rest, left, row =>
    (graph.expand shortest shortestPath pattern left right row).flatMap
      (expandChain shortest graph shortestPath rest right)

/-- `AllNodeScanOperator`, unless the node is bound: `AssertIsNodeOperator` lets nodes pass, and null. -/
def scan (graph : Graph) (name : String) (row : Bindings) : List Bindings :=
  match row name with
  | none => graph.nodes.map fun node => Function.update row name (some (.node node))
  | some (.node _) | some .null => [row]
  | some _ => []

def expandPart (shortest : ShortestPaths) (graph : Graph) (part : PatternPart) (row : Bindings) : List Bindings :=
  (graph.scan part.start row).flatMap (graph.expandChain shortest part.shortestPath part.chain part.start)

def expandPattern (shortest : ShortestPaths) (graph : Graph) : Pattern → Bindings → List Bindings
  | [], row => [row]
  | part :: rest, row => (graph.expandPart shortest part row).flatMap (expandPattern shortest graph rest)

def Leads (graph : Graph) (pattern : RelationshipPattern) (source id target : Nat) : Prop :=
  ∃ relationship ∈ graph.relationships, relationship.id = id ∧ pattern.allows relationship ∧
    pattern.direction.next relationship source = some target

def Walk (graph : Graph) (pattern : RelationshipPattern) : (source : Nat) → List Nat → (target : Nat) → Prop
  | source, [], target => source = target
  | source, id :: rest, target => ∃ middle, graph.Leads pattern source id middle ∧ Walk graph pattern middle rest target

theorem mem_edges :
    (id, target) ∈ graph.edges pattern source ↔ graph.Leads pattern source id target := by
  simp only [edges, mem_filterMap]
  refine exists_congr fun relationship => and_congr_right fun _ => ?_
  by_cases allowed : pattern.allows relationship
  · simp only [allowed, if_true, map_eq_some_iff, Prod.mk.injEq, exists_eq_right_right, true_and]
    exact and_comm
  · simp [allowed]

theorem Leads.mem (leads : graph.Leads pattern source id target) :
    id ∈ graph.relationships.map (·.id) := by
  obtain ⟨relationship, mem, rfl, -⟩ := leads
  exact mem_map_of_mem mem

theorem Walk.subset (walk : graph.Walk pattern source path target) : path ⊆ graph.relationships.map (·.id) := by
  induction path generalizing source with
  | nil => exact nil_subset _
  | cons id rest ih =>
    obtain ⟨middle, leads, continued⟩ := walk
    exact cons_subset.mpr ⟨leads.mem, ih continued⟩

theorem trails_eq (graph : Graph) (pattern : RelationshipPattern) (range : Range)
    (fuel source : Nat) (used : List Nat) : graph.trails pattern range fuel source used =
      (if range.atLeast ≤ used.length then [([], source)] else []) ++
        if range.max = some used.length then []
        else match fuel with
          | 0 => []
          | fuel + 1 =>
            ((graph.edges pattern source).filter fun edge => decide (edge.1 ∉ used)).flatMap fun edge =>
              (graph.trails pattern range fuel edge.2 (edge.1 :: used)).map fun trail => (edge.1 :: trail.1, trail.2) := by
  cases fuel <;> rfl

variable {fuel : Nat}

theorem nil_mem_trails :
    ([], target) ∈ graph.trails pattern range fuel source used ↔ range.atLeast ≤ used.length ∧ source = target := by
  rw [trails_eq, @eq_comm _ source]
  by_cases long : range.atLeast ≤ used.length <;> by_cases full : range.max = some used.length
  all_goals cases fuel <;> simp [long, full]

theorem cons_mem_trails {rest : List Nat} :
    (id :: rest, target) ∈ graph.trails pattern range fuel source used ↔
      range.max ≠ some used.length ∧ ∃ shorter middle, fuel = shorter + 1 ∧ graph.Leads pattern source id middle ∧
        id ∉ used ∧ (rest, target) ∈ graph.trails pattern range shorter middle (id :: used) := by
  rw [trails_eq]
  by_cases full : range.max = some used.length
  · by_cases long : range.atLeast ≤ used.length <;> simp [full]
  have emitted : (id :: rest, target) ∉ if range.atLeast ≤ used.length then [([], source)] else [] := by
    split <;> simp
  rw [if_neg full, mem_append, or_iff_right emitted]
  cases fuel with
  | zero => simp
  | succ fuel =>
    simp only [mem_flatMap, mem_filter, List.mem_map, decide_eq_true_eq, Prod.exists, Prod.mk.injEq,
      cons.injEq, ← mem_edges]
    constructor
    · rintro ⟨edge, middle, ⟨mem, fresh⟩, path, final, found, ⟨rfl, rfl⟩, rfl⟩
      exact ⟨full, fuel, middle, rfl, mem, fresh, found⟩
    · rintro ⟨-, shorter, middle, more, mem, fresh, found⟩
      obtain rfl := Nat.succ.inj more
      exact ⟨id, middle, ⟨mem, fresh⟩, rest, target, found, ⟨rfl, rfl⟩, rfl⟩

theorem mem_trails (within : ∀ bound ∈ range.max, used.length ≤ bound) :
    (path, target) ∈ graph.trails pattern range fuel source used ↔
      graph.Walk pattern source path target ∧ path.Nodup ∧ (∀ id ∈ path, id ∉ used) ∧
        range.admits (used.length + path.length) ∧ path.length ≤ fuel := by
  induction path generalizing fuel source used with
  | nil =>
    rw [nil_mem_trails, Range.admits_iff]
    simp only [nodup_nil, not_mem_nil, false_implies, implies_true, length_nil, Nat.zero_le, true_and, and_true]
    exact ⟨fun ⟨long, same⟩ => ⟨same, long, within⟩, fun ⟨same, long, _⟩ => ⟨long, same⟩⟩
  | cons id rest ih =>
    rw [cons_mem_trails]
    -- Where the path can grow, the next frame is within the maximal length too.
    have grown : range.max ≠ some used.length → ∀ bound ∈ range.max, (id :: used).length ≤ bound := by
      intro free bound given
      have apart : bound ≠ used.length := fun same => free (same ▸ given)
      have := within bound given
      rw [length_cons]
      omega
    have lengths : (id :: used).length + rest.length = used.length + (id :: rest).length := by
      simp only [length_cons]
      omega
    constructor
    · rintro ⟨free, shorter, middle, rfl, leads, fresh, found⟩
      obtain ⟨walk, nodup, apart, admitted, bounded⟩ := (ih (grown free)).mp found
      refine ⟨⟨middle, leads, walk⟩, ?_, ?_, lengths ▸ admitted, Nat.succ_le_succ bounded⟩
      · exact nodup_cons.mpr ⟨fun again => apart id again mem_cons_self, nodup⟩
      rintro other (_ | ⟨_, later⟩)
      · exact fresh
      · exact fun before => apart other later (mem_cons_of_mem _ before)
    · rintro ⟨⟨middle, leads, walk⟩, nodup, apart, admitted, bounded⟩
      obtain ⟨notAgain, nodupRest⟩ := nodup_cons.mp nodup
      have free : range.max ≠ some used.length := by
        intro full
        have := (Range.admits_iff.mp admitted).2 used.length full
        rw [length_cons] at this
        omega
      cases fuel with
      | zero => simp at bounded
      | succ shorter =>
        refine ⟨free, shorter, middle, rfl, leads, apart id mem_cons_self, (ih (grown free)).mpr ?_⟩
        refine ⟨walk, nodupRest, ?_, lengths ▸ admitted, Nat.le_of_succ_le_succ bounded⟩
        intro other later before
        rcases mem_cons.mp before with rfl | used
        · exact notAgain later
        · exact apart other (mem_cons_of_mem _ later) used

theorem mem_trails_nil :
    (path, target) ∈ graph.trails pattern range graph.relationships.length source [] ↔
      graph.Walk pattern source path target ∧ range.admits path.length ∧ path.Nodup := by
  rw [mem_trails fun _ _ => Nat.zero_le _]
  simp only [not_mem_nil, not_false_eq_true, implies_true, true_and, length_nil, Nat.zero_add]
  constructor
  · rintro ⟨walk, nodup, admitted, -⟩
    exact ⟨walk, admitted, nodup⟩
  · rintro ⟨walk, admitted, nodup⟩
    -- A trail uses every relationship at most once, so that it is no longer than all of them together.
    have bounded := (nodup.subperm walk.subset).length_le
    rw [length_map] at bounded
    exact ⟨walk, nodup, admitted, bounded⟩

end Graph

/-! ## What expanding finds -/

abbrev LinkRelation := RelationshipPattern → Nat → Bound → Nat → Prop

def LinkHolds (relation : LinkRelation) (bindings : Bindings) (pattern : RelationshipPattern) (left right : String) :
    Prop :=
  ∃ source bound target, bindings left = some (.node source) ∧ bindings pattern.name = some bound ∧
    bindings right = some (.node target) ∧ relation pattern source bound target

def ChainHolds (relation : LinkRelation) (bindings : Bindings) : List (RelationshipPattern × String) → String → Prop
  | [], _ => True
  | (pattern, right) :: rest, left =>
    LinkHolds relation bindings pattern left right ∧ ChainHolds relation bindings rest right

def PatternPart.names (part : PatternPart) : List String :=
  part.start :: part.chain.flatMap fun link => [link.1.name, link.2]

def Pattern.names (pattern : Pattern) : List String := pattern.flatMap PatternPart.names

structure Bindings.Extends (bindings row : Bindings) (names : List String) : Prop where
  keeps : ∀ name bound, row name = some bound → bindings name = some bound
  only : ∀ name, name ∉ names → bindings name = row name

theorem Bindings.extends_nil {bindings : Bindings} : bindings.Extends row [] ↔ bindings = row := by
  constructor
  · intro extended
    funext name
    exact extended.only name not_mem_nil
  · rintro rfl
    exact ⟨fun _ _ => id, fun _ _ => rfl⟩

theorem Bindings.tryBind_eq_some {result : Bindings} {name : String} {value : Bound} :
    row.tryBind name value = some result ↔
      (∀ held, row name = some held → held = value) ∧ result = Function.update row name (some value) := by
  unfold tryBind
  cases held : row name with
  | none => simp [eq_comm]
  | some bound =>
    by_cases same : bound = value
    · subst same
      have unchanged : Function.update row name (some bound) = row := Function.update_eq_self_iff.mpr held.symm
      simp [unchanged, eq_comm]
    · simp [same]

theorem Bindings.exists_tryBind {bindings : Bindings} {name : String} {value : Bound} {names : List String} :
    (∃ result, row.tryBind name value = some result ∧ bindings.Extends result names) ↔
      bindings.Extends row (name :: names) ∧ bindings name = some value := by
  constructor
  · rintro ⟨result, bound, extended⟩
    obtain ⟨free, rfl⟩ := tryBind_eq_some.mp bound
    have here : bindings name = some value := extended.keeps name value (Function.update_self ..)
    refine ⟨⟨fun other held known => ?_, fun other outside => ?_⟩, here⟩
    · by_cases same : other = name
      · subst same
        rw [here, free held known]
      · exact extended.keeps other held (by rwa [Function.update_of_ne same])
    · obtain ⟨different, later⟩ := not_or.mp (mt mem_cons.mpr outside)
      rw [extended.only other later, Function.update_of_ne different]
  · rintro ⟨extended, here⟩
    have free : ∀ held, row name = some held → held = value := fun held known =>
      some.inj ((extended.keeps name held known).symm.trans here)
    refine ⟨_, tryBind_eq_some.mpr ⟨free, rfl⟩, ?_, ?_⟩
    · refine (Function.forall_update_iff row fun other bound =>
        ∀ held, bound = some held → bindings other = some held).mpr ?_
      exact ⟨fun _ => here.trans, fun other _ => extended.keeps other⟩
    · refine (Function.forall_update_iff row fun other bound => other ∉ names → bindings other = bound).mpr ?_
      exact ⟨fun _ => here, fun other apart outside => extended.only other fun mem => (mem_cons.mp mem).elim apart outside⟩

def Bindings.Inside (row : Bindings) (graph : Graph) : Prop :=
  ∀ name id, row name = some (.node id) → id ∈ graph.nodes

section Expansion

variable {shortest : ShortestPaths} {graph : Graph} {shortestPath : Bool} {pattern : RelationshipPattern}
  {left right : String} {row bindings : Bindings} {names : List String}

def Graph.Finds (shortest : ShortestPaths) (graph : Graph) (shortestPath : Bool) : LinkRelation :=
  fun pattern source bound target => (bound, target) ∈ graph.candidates shortest shortestPath pattern source

variable {source target : Nat} {result : Bindings} {chain : List (RelationshipPattern × String)} {name : String}

theorem Graph.mem_expand (known : row left = some (.node source)) :
    result ∈ graph.expand shortest shortestPath pattern left right row ↔ ∃ bound target,
      (bound, target) ∈ graph.candidates shortest shortestPath pattern source ∧
      ∃ middle, row.tryBind pattern.name bound = some middle ∧ middle.tryBind right (.node target) = some result := by
  simp [expand, known, bind_eq_some_iff]

open Bindings

theorem Graph.expand_bound
    (found : result ∈ graph.expand shortest shortestPath pattern left right row) :
    ∃ source bound target, row left = some (.node source) ∧
      (bound, target) ∈ graph.candidates shortest shortestPath pattern source ∧
      result = Function.update (Function.update row pattern.name (some bound)) right (some (.node target)) := by
  unfold expand at found
  split at found
  next source known =>
    simp only [mem_filterMap, Prod.exists, bind_eq_some_iff, tryBind_eq_some] at found
    obtain ⟨bound, target, candidate, middle, ⟨-, rfl⟩, -, rfl⟩ := found
    exact ⟨source, bound, target, known, candidate, rfl⟩
  · cases found

theorem Graph.exists_expand (known : row left ≠ none) :
    (∃ result ∈ graph.expand shortest shortestPath pattern left right row, bindings.Extends result names) ↔
      bindings.Extends row (pattern.name :: right :: names) ∧
        LinkHolds (graph.Finds shortest shortestPath) bindings pattern left right := by
  constructor
  · rintro ⟨result, found, extended⟩
    obtain ⟨source, -, -, held, -, -⟩ := expand_bound found
    obtain ⟨bound, target, candidate, middle, first, second⟩ := (mem_expand held).mp found
    obtain ⟨toMiddle, rightBound⟩ := exists_tryBind.mp ⟨result, second, extended⟩
    obtain ⟨toRow, nameBound⟩ := exists_tryBind.mp ⟨middle, first, toMiddle⟩
    exact ⟨toRow, source, bound, target, toRow.keeps left _ held, nameBound, rightBound, candidate⟩
  · rintro ⟨extended, source, bound, target, leftBound, nameBound, rightBound, candidate⟩
    obtain ⟨held, heldEq⟩ := ne_none_iff_exists'.mp known
    have same : row left = some (.node source) := by
      rw [heldEq, ← extended.keeps left held heldEq, leftBound]
    obtain ⟨middle, first, toMiddle⟩ := exists_tryBind.mpr ⟨extended, nameBound⟩
    obtain ⟨result, second, toResult⟩ := exists_tryBind.mpr ⟨toMiddle, rightBound⟩
    exact ⟨result, (mem_expand same).mpr ⟨bound, target, candidate, middle, first, second⟩, toResult⟩

theorem exists_mem_flatMap_iff {α β : Type} {l : List α} {f : α → List β} {holds : β → Prop} {reaches : α → Prop}
    {rest : Prop} (each : ∀ middle ∈ l, (∃ result ∈ f middle, holds result) ↔ reaches middle ∧ rest) :
    (∃ result ∈ l.flatMap f, holds result) ↔ (∃ middle ∈ l, reaches middle) ∧ rest := by
  constructor
  · rintro ⟨result, found, held⟩
    obtain ⟨middle, first, second⟩ := mem_flatMap.mp found
    obtain ⟨reached, others⟩ := (each middle first).mp ⟨result, second, held⟩
    exact ⟨⟨middle, first, reached⟩, others⟩
  · rintro ⟨⟨middle, first, reached⟩, others⟩
    obtain ⟨result, second, held⟩ := (each middle first).mpr ⟨reached, others⟩
    exact ⟨result, mem_flatMap.mpr ⟨middle, first, second⟩, held⟩

theorem Graph.exists_expandChain (known : row left ≠ none) :
    (∃ result ∈ graph.expandChain shortest shortestPath chain left row, bindings.Extends result names) ↔
      bindings.Extends row ((chain.flatMap fun link => [link.1.name, link.2]) ++ names) ∧
        ChainHolds (graph.Finds shortest shortestPath) bindings chain left := by
  induction chain generalizing left row with
  | nil => simp [expandChain, ChainHolds]
  | cons link rest ih =>
    obtain ⟨pattern, right⟩ := link
    have step : ∀ middle ∈ graph.expand shortest shortestPath pattern left right row, middle right ≠ none := by
      intro middle found
      obtain ⟨_, _, _, _, _, last⟩ := expand_bound found
      rw [last, Function.update_self]
      nofun
    rw [ChainHolds, ← and_assoc]
    exact (exists_mem_flatMap_iff fun middle first => ih (step middle first)).trans
      (and_congr_left fun _ => exists_expand known)

theorem Bindings.Extends.mono {more : List String} (extended : bindings.Extends row names) (subset : names ⊆ more) :
    bindings.Extends row more :=
  ⟨extended.keeps, fun name outside => extended.only name fun mem => outside (subset mem)⟩

theorem Graph.exists_scan (inside : row.Inside graph) :
    (∃ result ∈ graph.scan name row, bindings.Extends result names) ↔
      bindings.Extends row (name :: names) ∧
        ((∃ node ∈ graph.nodes, bindings name = some (.node node)) ∨ row name = some .null) := by
  have bound : ∀ {held}, row name = some held → bindings.Extends row (name :: names) → bindings.Extends row names := by
    intro held known toRow
    refine ⟨toRow.keeps, fun other outside => ?_⟩
    by_cases same : other = name
    · rw [same, known, toRow.keeps name _ known]
    · exact toRow.only other fun mem => (mem_cons.mp mem).elim same outside
  unfold scan
  split
  next unbound =>
    have binds : ∀ node, row.tryBind name (.node node) = some (Function.update row name (some (.node node))) :=
      fun node => tryBind_eq_some.mpr ⟨by simp [unbound], rfl⟩
    rw [unbound, or_iff_left nofun]
    constructor
    · rintro ⟨result, found, extended⟩
      obtain ⟨node, mem, rfl⟩ := List.mem_map.mp found
      obtain ⟨toRow, here⟩ := exists_tryBind.mp ⟨_, binds node, extended⟩
      exact ⟨toRow, node, mem, here⟩
    · rintro ⟨toRow, node, mem, here⟩
      obtain ⟨result, isBound, extended⟩ := exists_tryBind.mpr ⟨toRow, here⟩
      obtain rfl := some.inj ((binds node).symm.trans isBound)
      exact ⟨_, mem_map_of_mem mem, extended⟩
  next node held =>
    constructor
    · rintro ⟨result, found, extended⟩
      obtain rfl := mem_singleton.mp found
      exact ⟨extended.mono (subset_cons_self _ _),
        .inl ⟨node, inside name node held, extended.keeps name _ held⟩⟩
    · rintro ⟨toRow, -⟩
      exact ⟨row, mem_singleton_self row, bound held toRow⟩
  next held =>
    constructor
    · rintro ⟨result, found, extended⟩
      obtain rfl := mem_singleton.mp found
      exact ⟨extended.mono (subset_cons_self _ _), .inr held⟩
    · rintro ⟨toRow, -⟩
      exact ⟨row, mem_singleton_self row, bound held toRow⟩
  next value notNode notNull held =>
    constructor
    · rintro ⟨result, found, -⟩
      cases found
    · rintro ⟨toRow, ⟨node, -, here⟩ | null⟩
      · exact absurd (some.inj ((toRow.keeps name value held).symm.trans here)) (notNode node)
      · exact absurd (some.inj (held.symm.trans null)) notNull

theorem Graph.Leads.inside (leads : graph.Leads pattern source id target) :
    target ∈ graph.nodes := by
  obtain ⟨relationship, mem, -, -, next⟩ := leads
  have endpoint : target = relationship.startNode ∨ target = relationship.endNode := by
    unfold Direction.next at next
    grind
  rcases endpoint with rfl | rfl
  · exact graph.startNode_mem relationship mem
  · exact graph.endNode_mem relationship mem

theorem Graph.Walk.inside {path : List Nat} (walk : graph.Walk pattern source path target)
    (start : source ∈ graph.nodes) : target ∈ graph.nodes := by
  induction path generalizing source with
  | nil => exact walk ▸ start
  | cons id rest ih =>
    obtain ⟨middle, leads, continued⟩ := walk
    exact ih continued leads.inside

theorem Graph.candidates_inside {bound : Bound}
    (candidate : (bound, target) ∈ graph.candidates shortest shortestPath pattern source) :
    (source ∈ graph.nodes → target ∈ graph.nodes) ∧ (∀ id, bound ≠ .node id) ∧ bound ≠ .null := by
  unfold candidates at candidate
  split at candidate
  · obtain ⟨⟨path, final⟩, found, same⟩ := List.mem_map.mp candidate
    obtain ⟨rfl, rfl⟩ := Prod.mk.inj same
    exact ⟨fun _ => shortest.inside graph pattern source path final found, nofun, nofun⟩
  · split at candidate
    · obtain ⟨⟨id, final⟩, found, same⟩ := List.mem_map.mp candidate
      obtain ⟨rfl, rfl⟩ := Prod.mk.inj same
      exact ⟨fun _ => (mem_edges.mp found).inside, nofun, nofun⟩
    · obtain ⟨⟨path, final⟩, found, same⟩ := List.mem_map.mp candidate
      obtain ⟨rfl, rfl⟩ := Prod.mk.inj same
      exact ⟨(mem_trails_nil.mp found).1.inside, nofun, nofun⟩

/-- Expanding keeps what is bound, stays inside the graph and binds nothing to null. -/
structure Bindings.Grows (graph : Graph) (row result : Bindings) : Prop where
  keeps : ∀ name bound, row name = some bound → result name = some bound
  inside : row.Inside graph → result.Inside graph
  null : ∀ name, result name = some .null → row name = some .null

theorem Bindings.Grows.refl (graph : Graph) (row : Bindings) : row.Grows graph row := ⟨fun _ _ => id, id, fun _ => id⟩

theorem Bindings.Grows.trans {middle : Bindings} (first : row.Grows graph middle)
    (second : middle.Grows graph result) : row.Grows graph result :=
  ⟨fun name bound known => second.keeps name bound (first.keeps name bound known),
    fun inside => second.inside (first.inside inside), fun name null => first.null name (second.null name null)⟩

theorem Bound.node_ne_null (id : Nat) : Bound.node id ≠ .null := nofun

theorem Bindings.Grows.tryBind {bound : Bound} (notNull : bound ≠ .null)
    (isInside : row.Inside graph → ∀ id, bound = .node id → id ∈ graph.nodes)
    (binds : row.tryBind name bound = some result) : row.Grows graph result := by
  obtain ⟨free, rfl⟩ := tryBind_eq_some.mp binds
  refine ⟨?_, fun inside => ?_, ?_⟩
  · refine (Function.forall_update_iff row fun other bound => ∀ held, row other = some held → bound = some held).mpr ?_
    exact ⟨fun held known => congrArg some (free held known).symm, fun _ _ _ => id⟩
  · refine (Function.forall_update_iff row fun _ bound => ∀ id, bound = some (.node id) → id ∈ graph.nodes).mpr ?_
    exact ⟨fun id known => isInside inside id (some.inj known), fun other _ => inside other⟩
  · refine (Function.forall_update_iff row fun other bound => bound = some .null → row other = _).mpr ?_
    exact ⟨fun known => absurd (some.inj known) notNull, fun _ _ => id⟩

theorem Graph.expand_grows
    (found : result ∈ graph.expand shortest shortestPath pattern left right row) :
    row.Grows graph result ∧ result right ≠ none := by
  obtain ⟨source, _, _, held, _, last⟩ := expand_bound found
  obtain ⟨bound, target, candidate, middle, first, second⟩ := (mem_expand held).mp found
  obtain ⟨reached, notNode, notNull⟩ := candidates_inside candidate
  have toMiddle : row.Grows graph middle := .tryBind notNull (fun _ id same => absurd same (notNode id)) first
  have reachedRight : result right ≠ none := by
    rw [last, Function.update_self]
    nofun
  refine ⟨toMiddle.trans (.tryBind (Bound.node_ne_null target) (fun inside id same => ?_) second), reachedRight⟩
  cases same
  exact reached (inside left source (toMiddle.keeps left _ held))

theorem Graph.expandChain_grows
    (found : result ∈ graph.expandChain shortest shortestPath chain left row) : row.Grows graph result := by
  induction chain generalizing left row with
  | nil =>
    obtain rfl := mem_singleton.mp found
    exact .refl graph _
  | cons link rest ih =>
    obtain ⟨middle, first, second⟩ := mem_flatMap.mp found
    exact (expand_grows first).1.trans (ih second)

theorem Graph.scan_grows (found : result ∈ graph.scan name row) :
    row.Grows graph result ∧ result name ≠ none := by
  unfold scan at found
  split at found
  next unbound =>
    obtain ⟨node, mem, rfl⟩ := List.mem_map.mp found
    refine ⟨.tryBind (Bound.node_ne_null node) (fun _ id same => ?_) (tryBind_eq_some.mpr ⟨by simp [unbound], rfl⟩),
      by rw [Function.update_self]; nofun⟩
    cases same
    exact mem
  next node held =>
    obtain rfl := mem_singleton.mp found
    exact ⟨.refl graph _, by rw [held]; nofun⟩
  next held =>
    obtain rfl := mem_singleton.mp found
    exact ⟨.refl graph _, by rw [held]; nofun⟩
  · cases found

theorem Graph.expandPart_grows {part : PatternPart}
    (found : result ∈ graph.expandPart shortest part row) : row.Grows graph result := by
  obtain ⟨scanned, first, second⟩ := mem_flatMap.mp found
  exact (scan_grows first).1.trans (expandChain_grows second)

def PatternPart.Holds (relation : Bool → LinkRelation) (graph : Graph) (bindings : Bindings) (part : PatternPart) : Prop :=
  (∃ node ∈ graph.nodes, bindings part.start = some (.node node)) ∧
    ChainHolds (relation part.shortestPath) bindings part.chain part.start

/-- A node that stands alone and is null in the row. -/
def PatternPart.NullAlone (part : PatternPart) (row : Bindings) : Prop := part.chain = [] ∧ row part.start = some .null

theorem Graph.exists_expandPart {part : PatternPart} (inside : row.Inside graph) :
    (∃ result ∈ graph.expandPart shortest part row, bindings.Extends result names) ↔
      bindings.Extends row (part.names ++ names) ∧
        (part.Holds (graph.Finds shortest) graph bindings ∨ part.NullAlone row) := by
  refine (exists_mem_flatMap_iff fun middle first => exists_expandChain (scan_grows first).2).trans ?_
  rw [exists_scan inside]
  constructor
  · rintro ⟨⟨toRow, isNode | isNull⟩, chained⟩
    · exact ⟨toRow, .inl ⟨isNode, chained⟩⟩
    -- Null does not have relationships.
    cases chain : part.chain with
    | nil => exact ⟨toRow, .inr ⟨chain, isNull⟩⟩
    | cons link rest =>
      rw [chain] at chained
      obtain ⟨⟨source, bound, target, leftBound, -⟩, -⟩ := chained
      have clash := (toRow.keeps part.start _ isNull).symm.trans leftBound
      cases clash
  · rintro ⟨toRow, ⟨isNode, chained⟩ | ⟨alone, isNull⟩⟩
    · exact ⟨⟨toRow, .inl isNode⟩, chained⟩
    · refine ⟨⟨toRow, .inr isNull⟩, ?_⟩
      rw [alone]
      trivial

theorem Bindings.Grows.nullAlone (grows : row.Grows graph result) (part : PatternPart) :
    part.NullAlone result ↔ part.NullAlone row :=
  and_congr_right fun _ => ⟨grows.null _, grows.keeps _ _⟩

theorem Graph.mem_expandPattern {parts : Pattern} (inside : row.Inside graph) :
    bindings ∈ graph.expandPattern shortest parts row ↔ bindings.Extends row parts.names ∧
      ∀ part ∈ parts, part.Holds (graph.Finds shortest) graph bindings ∨ part.NullAlone row := by
  induction parts generalizing row with
  | nil => simp [expandPattern, Pattern.names, extends_nil]
  | cons part rest ih =>
    rw [forall_mem_cons, ← and_assoc]
    refine Iff.trans ?_ (and_congr_left fun _ => exists_expandPart inside)
    have step : ∀ middle ∈ graph.expandPart shortest part row, (bindings ∈ graph.expandPattern shortest rest middle ↔
        bindings.Extends middle (Pattern.names rest) ∧
          ∀ part ∈ rest, part.Holds (graph.Finds shortest) graph bindings ∨ part.NullAlone row) := by
      intro middle found
      have grown := expandPart_grows found
      simp only [ih (grown.inside inside), grown.nullAlone]
    rw [expandPattern, mem_flatMap]
    exact (exists_congr fun middle => (and_congr_right (step middle)).trans and_assoc.symm).trans exists_and_right

end Expansion

end RocksGraph.Query
