import RocksGraph.Query.Pattern

/-! Relationship uniqueness (`uniqueness_predicates_rewriter.cc`).

The rewriter adds to the WHERE of a `MATCH` what keeps the relationships of its
pattern apart. Patterns of `EXISTS` have become a `MATCH` by then; those of
pattern comprehensions (`BuildListIRExpression`) and of `MERGE`
(`BuildMergeMatchGraph`) reach the planner without it. -/

set_option autoImplicit false

namespace RocksGraph.Query

open List Option Bindings

/-- `CollectConnectionsFromPattern`: the relationships of all parts but shortest paths. -/
def Pattern.connections (parts : Pattern) : List RelationshipPattern :=
  (parts.filter fun part => !part.shortestPath).flatMap fun part => part.chain.map Prod.fst

def RelationshipPattern.isGroup (pattern : RelationshipPattern) : Bool := pattern.range.isSome

def RelationshipPattern.canBeEmpty (pattern : RelationshipPattern) : Bool :=
  pattern.range.any fun range => range.min == some 0

def hasTypeOverlap (left right : RelationshipPattern) : Bool :=
  left.types.isEmpty || right.types.isEmpty || right.types.any left.types.contains

def isAlwaysDifferent (left right : RelationshipPattern) : Bool := !hasTypeOverlap left right

inductive UniquenessPredicate where
  | literal (value : Bool)
  /-- `NOT (left = right)`. -/
  | notEquals (left right : String)
  /-- `NOT (element IN list)`. -/
  | notIn (element list : String)
  /-- `none(x IN left WHERE x IN right)`. -/
  | disjoint (left right : String)
  /-- `all(x IN list WHERE single(y IN list WHERE x = y))`. -/
  | allSingle (list : String)
  deriving DecidableEq

/-- The predicate for two relationships of a pattern, if they need one. Every connection has one inner relationship. -/
def pairPredicates (left right : RelationshipPattern) : List UniquenessPredicate :=
  match left.isGroup, right.isGroup with
  | false, false =>
    if left.name = right.name then [.literal false]
    else if isAlwaysDifferent left right then [] else [.notEquals left.name right.name]
  | false, true => if isAlwaysDifferent left right then [] else [.notIn left.name right.name]
  | true, false => if isAlwaysDifferent right left then [] else [.notIn right.name left.name]
  | true, true =>
    if isAlwaysDifferent left right || isAlwaysDifferent right left then []
    else if left.name = right.name ∧ ¬ (left.canBeEmpty || right.canBeEmpty) then [.literal false]
    else [.disjoint left.name right.name]

def allPairPredicates : List RelationshipPattern → List UniquenessPredicate
  | [] => []
  | first :: rest => rest.flatMap (pairPredicates first) ++ allPairPredicates rest

def groupPredicates (connections : List RelationshipPattern) : List UniquenessPredicate :=
  (connections.filter RelationshipPattern.isGroup).map fun connection => .allSingle connection.name

/-- `AddUniquenessPredicatesRewriter`: the conjuncts added to the WHERE of a `MATCH`. -/
def Pattern.uniquenessPredicates (parts : Pattern) : List UniquenessPredicate :=
  allPairPredicates parts.connections ++ groupPredicates parts.connections

def Bound.ids : Bound → List Nat
  | .null | .node _ => []
  | .relationship id => [id]
  | .relationships ids => ids

def Bindings.relationships (bindings : Bindings) (name : String) : List Nat := (bindings name).elim [] Bound.ids

def UniquenessPredicate.holds (bindings : Bindings) : UniquenessPredicate → Bool
  | .literal value => value
  | .notEquals left right => bindings left != bindings right
  | .notIn element list => (bindings.relationships element).all fun id => !(bindings.relationships list).contains id
  | .disjoint left right => (bindings.relationships left).all fun id => !(bindings.relationships right).contains id
  | .allSingle list =>
    (bindings.relationships list).all fun id => (bindings.relationships list).countP (· == id) == 1

inductive PatternReader where
  | matching
  | optionalMatch
  | existsPattern
  | comprehension
  | merge
  deriving DecidableEq

/-- The rewriter visits `MATCH`, `OPTIONAL MATCH` and what `EXISTS` was rewritten to. -/
def PatternReader.rewritten : PatternReader → Bool
  | .matching | .optionalMatch | .existsPattern => true
  | .comprehension | .merge => false

/-- The matches a reader finds for one row; `condition` is what its labels, properties and own WHERE demand. -/
def PatternReader.found (reader : PatternReader) (shortest : ShortestPaths) (graph : Graph) (parts : Pattern)
    (condition : Bindings → Bool) (row : Bindings) : List Bindings :=
  (graph.expandPattern shortest parts row).filter fun bindings =>
    (!reader.rewritten || parts.uniquenessPredicates.all (·.holds bindings)) && condition bindings

/-- What one relationship of a pattern says of the graph: a variable-length one can be any walk. -/
def Graph.Links (shortest : ShortestPaths) (graph : Graph) (shortestPath : Bool) : LinkRelation :=
  fun pattern source bound target =>
    if shortestPath then ∃ path, bound = .relationships path ∧ (path, target) ∈ shortest.paths graph pattern source
    else match pattern.range with
      | none => ∃ id, bound = .relationship id ∧ graph.Leads pattern source id target
      | some range => ∃ path, bound = .relationships path ∧ graph.Walk pattern source path target ∧ range.admits path.length

/-- The bindings extend the row to an assignment that satisfies the pattern and the condition. -/
structure Satisfies (shortest : ShortestPaths) (graph : Graph) (parts : Pattern) (condition : Bindings → Bool)
    (row bindings : Bindings) : Prop where
  extended : bindings.Extends row parts.names
  holds : ∀ part ∈ parts, part.Holds (graph.Links shortest) graph bindings
  condition : condition bindings

def Pattern.Distinct (parts : Pattern) (bindings : Bindings) : Prop :=
  (parts.connections.flatMap fun connection => bindings.relationships connection.name).Nodup

/-- What the operators themselves see to: the relationships of one variable-length pattern differ, and a null passes
for a node that stands alone. -/
structure Fits (shortest : ShortestPaths) (graph : Graph) (parts : Pattern) (condition : Bindings → Bool)
    (row bindings : Bindings) : Prop where
  extended : bindings.Extends row parts.names
  holds : ∀ part ∈ parts, part.Holds (graph.Links shortest) graph bindings ∨ part.NullAlone row
  trails : ∀ connection ∈ parts.connections, (bindings.relationships connection.name).Nodup
  condition : condition bindings

instance (parts : Pattern) (bindings : Bindings) : Decidable (parts.Distinct bindings) :=
  inferInstanceAs (Decidable (List.Nodup _))

section Predicates

variable {shortest : ShortestPaths} {graph : Graph} {bindings : Bindings} {left right : RelationshipPattern}

structure RelationshipPattern.BoundIn (graph : Graph) (bindings : Bindings) (pattern : RelationshipPattern) : Prop where
  allowed : ∀ id ∈ bindings.relationships pattern.name, ∃ relationship ∈ graph.relationships,
    relationship.id = id ∧ pattern.allows relationship
  single : pattern.range = none → ∃ id, bindings pattern.name = some (.relationship id)
  group : ∀ range ∈ pattern.range, ∃ ids, bindings pattern.name = some (.relationships ids) ∧ range.admits ids.length

def RelationshipPattern.Apart (graph : Graph) (left right : RelationshipPattern) : Prop :=
  ∀ relationship ∈ graph.relationships, ¬ (left.allows relationship ∧ right.allows relationship)

theorem RelationshipPattern.apart_of_isAlwaysDifferent (different : isAlwaysDifferent left right) :
    left.Apart graph right := by
  rintro relationship - ⟨leftAllows, rightAllows⟩
  simp only [isAlwaysDifferent, hasTypeOverlap, Bool.not_eq_true', Bool.or_eq_false_iff, List.any_eq_false] at different
  obtain ⟨⟨leftTypes, rightTypes⟩, none⟩ := different
  simp only [allows, leftTypes, rightTypes, Bool.false_or, contains_iff_mem] at leftAllows rightAllows
  exact none relationship.type rightAllows (contains_iff_mem.mpr leftAllows)

theorem hasTypeOverlap_comm (left right : RelationshipPattern) :
    hasTypeOverlap left right = hasTypeOverlap right left := by
  simp only [hasTypeOverlap]
  grind

theorem RelationshipPattern.Apart.disjoint (apart : left.Apart graph right) (leftBound : left.BoundIn graph bindings)
    (rightBound : right.BoundIn graph bindings) :
    (bindings.relationships left.name).Disjoint (bindings.relationships right.name) := by
  intro id inLeft inRight
  obtain ⟨first, firstMember, firstId, leftAllows⟩ := leftBound.allowed id inLeft
  obtain ⟨second, secondMember, secondId, rightAllows⟩ := rightBound.allowed id inRight
  have same : first = second :=
    inj_on_of_nodup_map graph.unique firstMember secondMember (firstId.trans secondId.symm)
  exact apart first firstMember ⟨leftAllows, same ▸ rightAllows⟩

theorem RelationshipPattern.BoundIn.relationships_single (bound : left.BoundIn graph bindings)
    (single : left.isGroup = false) : ∃ id, bindings left.name = some (.relationship id) ∧
      bindings.relationships left.name = [id] := by
  obtain ⟨id, here⟩ := bound.single (isSome_eq_false_iff.mp single |> isNone_iff_eq_none.mp)
  exact ⟨id, here, by rw [relationships, here]; rfl⟩

theorem RelationshipPattern.BoundIn.relationships_ne_nil (bound : left.BoundIn graph bindings) (group : left.isGroup)
    (nonempty : left.canBeEmpty = false) : bindings.relationships left.name ≠ [] := by
  obtain ⟨range, given⟩ := isSome_iff_exists.mp group
  obtain ⟨ids, here, admitted⟩ := bound.group range given
  have long := (Range.admits_iff.mp admitted).1
  rw [relationships, here]
  rintro (rfl : ids = [])
  have zero : range.min = some 0 := by
    simpa [Range.atLeast, getD_eq_iff] using long
  simp [canBeEmpty, given, zero] at nonempty

open UniquenessPredicate

theorem all_pairPredicates (leftBound : left.BoundIn graph bindings) (rightBound : right.BoundIn graph bindings) :
    (pairPredicates left right).all (·.holds bindings) ↔
      (bindings.relationships left.name).Disjoint (bindings.relationships right.name) := by
  have typed : isAlwaysDifferent left right →
      (bindings.relationships left.name).Disjoint (bindings.relationships right.name) := fun different =>
    (RelationshipPattern.apart_of_isAlwaysDifferent different).disjoint leftBound rightBound
  have comm : isAlwaysDifferent right left = isAlwaysDifferent left right := by
    rw [isAlwaysDifferent, hasTypeOverlap_comm, isAlwaysDifferent]
  unfold pairPredicates
  cases leftGroup : left.isGroup <;> cases rightGroup : right.isGroup <;> simp only [comm, Bool.or_self]
  case false.false =>
    obtain ⟨first, leftIs, leftIds⟩ := leftBound.relationships_single leftGroup
    obtain ⟨second, rightIs, rightIds⟩ := rightBound.relationships_single rightGroup
    split
    case isTrue same =>
      rw [← same, leftIds]
      simp [holds]
    case isFalse named =>
      split
      case isTrue different => simpa using typed different
      case isFalse overlapping =>
        simp only [holds, leftIs, rightIs, leftIds, rightIds, all_cons, all_nil, Bool.and_true,
          bne_iff_ne, ne_eq, some.injEq, Bound.relationship.injEq, disjoint_singleton, mem_singleton]
        exact ne_comm
  case false.true =>
    split
    case isTrue different => simpa using typed different
    case isFalse overlapping => simp [holds, List.Disjoint]
  case true.false =>
    split
    case isTrue different => simpa using typed different
    case isFalse overlapping =>
      rw [disjoint_comm]
      simp [holds, List.Disjoint]
  case true.true =>
    split
    case isTrue different => simpa using typed different
    case isFalse overlapping =>
      split
      case isTrue twice =>
        obtain ⟨same, nonempty⟩ := twice
        simp only [Bool.or_eq_true, not_or, Bool.not_eq_true] at nonempty
        obtain ⟨id, mem⟩ := exists_mem_of_ne_nil _ (leftBound.relationships_ne_nil leftGroup nonempty.1)
        rw [← same]
        simp only [holds, all_cons, Bool.false_and, Bool.false_eq_true, false_iff]
        exact fun disjoint => disjoint mem mem
      case isFalse once => simp [holds, List.Disjoint]

variable {connections : List RelationshipPattern}

theorem all_allPairPredicates
    (bound : ∀ connection ∈ connections, connection.BoundIn graph bindings) :
    (allPairPredicates connections).all (·.holds bindings) ↔ connections.Pairwise fun left right =>
      (bindings.relationships left.name).Disjoint (bindings.relationships right.name) := by
  induction connections with
  | nil => simp [allPairPredicates]
  | cons first rest ih =>
    rw [forall_mem_cons] at bound
    rw [allPairPredicates, all_append, Bool.and_eq_true, ih bound.2, pairwise_cons, all_flatMap,
      List.all_eq_true]
    exact and_congr_left fun _ => forall₂_congr fun other mem => all_pairPredicates bound.1 (bound.2 other mem)

theorem all_groupPredicates
    (bound : ∀ connection ∈ connections, connection.BoundIn graph bindings) :
    (groupPredicates connections).all (·.holds bindings) ↔
      ∀ connection ∈ connections, (bindings.relationships connection.name).Nodup := by
  rw [groupPredicates, List.all_map, List.all_eq_true]
  simp only [mem_filter, and_imp]
  refine forall₂_congr fun connection mem => ?_
  cases group : connection.isGroup with
  | false =>
    obtain ⟨id, -, ids⟩ := (bound connection mem).relationships_single group
    simp [ids]
  | true =>
    rw [nodup_iff_count_eq_one]
    simp [holds, List.count]

end Predicates

/-! ## Matches -/

section Matches

variable {shortest : ShortestPaths} {graph : Graph} {row bindings : Bindings} {condition : Bindings → Bool}
  {parts : Pattern}

variable {pattern : RelationshipPattern}

variable {shortestPath : Bool} {chain : List (RelationshipPattern × String)}

theorem Graph.finds_iff {source target : Nat} {bound : Bound} :
    graph.Finds shortest shortestPath pattern source bound target ↔
      graph.Links shortest shortestPath pattern source bound target ∧ (shortestPath = false → bound.ids.Nodup) := by
  unfold Finds Links candidates
  cases shortestPath with
  | true => grind
  | false =>
    simp only [Bool.false_eq_true, if_false, true_implies]
    cases pattern.range with
    | none =>
      simp only [List.mem_map, Prod.exists, Prod.mk.injEq, mem_edges]
      constructor
      · rintro ⟨id, final, leads, rfl, rfl⟩
        exact ⟨⟨id, rfl, leads⟩, nodup_singleton id⟩
      · rintro ⟨⟨id, rfl, leads⟩, -⟩
        exact ⟨id, target, leads, rfl, rfl⟩
    | some range =>
      simp only [List.mem_map, Prod.exists, Prod.mk.injEq, mem_trails_nil]
      constructor
      · rintro ⟨path, final, ⟨walk, admitted, nodup⟩, rfl, rfl⟩
        exact ⟨⟨path, rfl, walk, admitted⟩, nodup⟩
      · rintro ⟨⟨path, rfl, walk, admitted⟩, nodup⟩
        exact ⟨path, target, ⟨walk, admitted, nodup⟩, rfl, rfl⟩

theorem chainHolds_finds_iff {left : String} :
    ChainHolds (graph.Finds shortest shortestPath) bindings chain left ↔
      ChainHolds (graph.Links shortest shortestPath) bindings chain left ∧
        (shortestPath = false → ∀ link ∈ chain, (bindings.relationships link.1.name).Nodup) := by
  induction chain generalizing left with
  | nil => simp [ChainHolds]
  | cons link rest ih =>
    have here : LinkHolds (graph.Finds shortest shortestPath) bindings link.1 left link.2 ↔
        LinkHolds (graph.Links shortest shortestPath) bindings link.1 left link.2 ∧
          (shortestPath = false → (bindings.relationships link.1.name).Nodup) := by
      constructor
      · rintro ⟨source, bound, target, leftBound, nameBound, rightBound, found⟩
        obtain ⟨linked, nodup⟩ := Graph.finds_iff.mp found
        refine ⟨⟨source, bound, target, leftBound, nameBound, rightBound, linked⟩, fun plain => ?_⟩
        rw [relationships, nameBound]
        exact nodup plain
      · rintro ⟨⟨source, bound, target, leftBound, nameBound, rightBound, linked⟩, nodup⟩
        rw [relationships, nameBound] at nodup
        exact ⟨source, bound, target, leftBound, nameBound, rightBound, Graph.finds_iff.mpr ⟨linked, nodup⟩⟩
    rw [ChainHolds, ChainHolds, ih, forall_mem_cons]
    tauto

theorem Pattern.mem_connections {connection : RelationshipPattern} : connection ∈ parts.connections ↔
    ∃ part ∈ parts, part.shortestPath = false ∧ ∃ link ∈ part.chain, link.1 = connection := by
  simp [connections, and_assoc]

theorem Pattern.forall_holds_finds_iff :
    (∀ part ∈ parts, part.Holds (graph.Finds shortest) graph bindings ∨ part.NullAlone row) ↔
      (∀ part ∈ parts, part.Holds (graph.Links shortest) graph bindings ∨ part.NullAlone row) ∧
        ∀ connection ∈ parts.connections, (bindings.relationships connection.name).Nodup := by
  simp only [PatternPart.Holds, chainHolds_finds_iff, mem_connections]
  constructor
  · intro found
    refine ⟨fun part mem => (found part mem).imp_left fun held => ⟨held.1, held.2.1⟩, ?_⟩
    rintro connection ⟨part, mem, plain, link, inChain, rfl⟩
    rcases found part mem with held | ⟨alone, -⟩
    · exact held.2.2 plain link inChain
    · rw [alone] at inChain
      cases inChain
  · rintro ⟨held, nodup⟩ part mem
    exact (held part mem).imp_left fun holds => ⟨holds.1, holds.2, fun plain link inChain =>
      nodup link.1 ⟨part, mem, plain, link, inChain, rfl⟩⟩

theorem Graph.Walk.allowed {source target : Nat} {path : List Nat}
    (walk : graph.Walk pattern source path target) : ∀ id ∈ path, ∃ relationship ∈ graph.relationships,
      relationship.id = id ∧ pattern.allows relationship := by
  induction path generalizing source with
  | nil => nofun
  | cons first rest ih =>
    obtain ⟨middle, ⟨relationship, mem, sameId, allowed, -⟩, continued⟩ := walk
    exact forall_mem_cons.mpr ⟨⟨relationship, mem, sameId, allowed⟩, ih continued⟩

theorem LinkHolds.boundIn {left right : String}
    (linked : LinkHolds (graph.Links shortest false) bindings pattern left right) :
    pattern.BoundIn graph bindings := by
  obtain ⟨source, bound, target, -, here, -, relation⟩ := linked
  simp only [Graph.Links] at relation
  cases given : pattern.range with
  | none =>
    rw [given] at relation
    obtain ⟨id, rfl, relationship, mem, sameId, allowed, -⟩ := relation
    refine ⟨fun other inside => ?_, fun _ => ⟨id, here⟩, fun other same => by simp [given] at same⟩
    rw [relationships, here] at inside
    obtain rfl := mem_singleton.mp inside
    exact ⟨relationship, mem, sameId, allowed⟩
  | some range =>
    rw [given] at relation
    obtain ⟨path, rfl, walk, admitted⟩ := relation
    refine ⟨fun other inside => ?_, fun none => by simp [given] at none, fun other same => ?_⟩
    · rw [relationships, here] at inside
      exact walk.allowed other inside
    · obtain rfl := some.inj (given.symm.trans same)
      exact ⟨path, here, admitted⟩

theorem ChainHolds.boundIn {left : String}
    (chained : ChainHolds (graph.Links shortest false) bindings chain left) :
    ∀ link ∈ chain, link.1.BoundIn graph bindings := by
  induction chain generalizing left with
  | nil => nofun
  | cons link rest ih => exact forall_mem_cons.mpr ⟨chained.1.boundIn, ih chained.2⟩

section Fits

variable (fits : Fits shortest graph parts condition row bindings)
include fits

theorem Fits.boundIn : ∀ connection ∈ parts.connections, connection.BoundIn graph bindings := by
  intro connection mem
  obtain ⟨part, inParts, plain, link, inChain, rfl⟩ := Pattern.mem_connections.mp mem
  rcases fits.holds part inParts with ⟨-, chained⟩ | ⟨alone, -⟩
  · rw [plain] at chained
    exact chained.boundIn link inChain
  · rw [alone] at inChain
    cases inChain

theorem Fits.all_uniquenessPredicates :
    parts.uniquenessPredicates.all (·.holds bindings) ↔ parts.Distinct bindings := by
  rw [Pattern.uniquenessPredicates, all_append, Bool.and_eq_true, all_allPairPredicates fits.boundIn,
    all_groupPredicates fits.boundIn, Pattern.Distinct, nodup_flatMap, and_comm]

end Fits

theorem satisfies_distinct_iff : Satisfies shortest graph parts condition row bindings ∧ parts.Distinct bindings ↔
    Fits shortest graph parts condition row bindings ∧ (∀ part ∈ parts, ¬ part.NullAlone row) ∧
      parts.Distinct bindings := by
  constructor
  · rintro ⟨⟨extended, held, meets⟩, distinct⟩
    refine ⟨⟨extended, fun part mem => .inl (held part mem), (nodup_flatMap.mp distinct).1, meets⟩, ?_, distinct⟩
    rintro part mem ⟨-, isNull⟩
    obtain ⟨⟨node, -, isNode⟩, -⟩ := held part mem
    cases (extended.keeps _ _ isNull).symm.trans isNode
  · rintro ⟨⟨extended, held, -, meets⟩, notNull, distinct⟩
    exact ⟨⟨extended, fun part mem => (held part mem).resolve_right (notNull part mem), meets⟩, distinct⟩

theorem PatternReader.mem_found_iff_fits (reader : PatternReader) (inside : row.Inside graph) :
    bindings ∈ reader.found shortest graph parts condition row ↔
      Fits shortest graph parts condition row bindings ∧ (reader.rewritten → parts.Distinct bindings) := by
  have checked : Fits shortest graph parts condition row bindings →
      ((!reader.rewritten || parts.uniquenessPredicates.all (·.holds bindings)) ↔
        (reader.rewritten → parts.Distinct bindings)) := by
    intro fits
    rw [← fits.all_uniquenessPredicates]
    cases reader.rewritten <;> simp
  rw [found, mem_filter, Bool.and_eq_true, Graph.mem_expandPattern inside, Pattern.forall_holds_finds_iff]
  constructor
  · rintro ⟨⟨extended, held, trails⟩, unique, meets⟩
    have fits : Fits shortest graph parts condition row bindings := ⟨extended, held, trails, meets⟩
    exact ⟨fits, (checked fits).mp unique⟩
  · rintro ⟨fits, unique⟩
    exact ⟨⟨fits.extended, fits.holds, fits.trails⟩, (checked fits).mpr unique, fits.condition⟩

end Matches

/-! Two relationships in a row, in a graph of two relationships and in a loop. -/

def twoSteps (first second : List String) : Pattern :=
  [⟨false, "a", [(⟨"r", first, none, .outgoing⟩, "b"), (⟨"s", second, none, .outgoing⟩, "c")]⟩]

def lineGraph : Graph where
  nodes := [1, 2, 3]
  relationships := [⟨7, "T", 1, 2⟩, ⟨8, "T", 2, 3⟩]
  unique := by decide
  startNode_mem := by decide
  endNode_mem := by decide

def loopGraph : Graph where
  nodes := [1]
  relationships := [⟨7, "T", 1, 1⟩]
  unique := by decide
  startNode_mem := by decide
  endNode_mem := by decide

end RocksGraph.Query
