import RocksGraph.Query.Plan

/-! `WITH` as a plan (`query_ir_builder.cc`, `logical_plan_builder.cc`) against
`WITH` as one clause.

The planner splits the predicate of a `WITH` into conjuncts and filters by each
as soon as the names in it are there: below the projection, if the input has
them, and otherwise right above it, before sorting, skipping and limiting. -/

set_option autoImplicit false

namespace RocksGraph.Query

open Foundation

section Clause

variable {Term : Type}

/-- `ir::ProjectionItem`. -/
structure AliasedItem (Term : Type) where
  aliasName : String
  expression : Expression Term
  deriving DecidableEq

/-- `ast::With`, with `*` written out. SKIP and LIMIT are constants. -/
structure WithClause (Term : Type) where
  distinct : Bool
  items : List (AliasedItem Term)
  orderBy : List (SortItem Term)
  skip : Option Nat
  limit : Option Nat
  condition : Option (Expression Term)

def WithClause.aliases (clause : WithClause Term) : List String := clause.items.map (·.aliasName)

inductive Horizon (Term : Type) where
  | regularProjection (items : List (AliasedItem Term))
  | distinctProjection (groupingItems : List (AliasedItem Term))
  | aggregatingProjection (items groupingItems aggregationItems : List (AliasedItem Term))

structure QueryProjection (Term : Type) where
  horizon : Horizon Term
  requiredOrder : List (SortItem Term)
  skip : Option Nat
  limit : Option Nat
  selections : List (Expression Term)

variable {Value : Type} (language : Language Term Value)

def Language.groupingItems (clause : WithClause Term) : List (AliasedItem Term) :=
  clause.items.filter fun item => !language.containsAggregation item.expression

def Language.aggregationItems (clause : WithClause Term) : List (AliasedItem Term) :=
  clause.items.filter fun item => language.containsAggregation item.expression

/-- The horizon `BuildProjectionBody` chooses. An aggregating projection forgets DISTINCT. -/
def Language.horizon (clause : WithClause Term) : Horizon Term :=
  if (language.aggregationItems clause).isEmpty then
    if clause.distinct then .distinctProjection clause.items else .regularProjection clause.items
  else .aggregatingProjection clause.items (language.groupingItems clause) (language.aggregationItems clause)

def Language.buildProjectionBody (clause : WithClause Term) : Except String (QueryProjection Term) := do
  clause.items.forM fun item => check (item.aliasName ≠ "") "projection item alias is empty after rewrite"
  return ⟨language.horizon clause, clause.orderBy, clause.skip, clause.limit, []⟩

variable [DecidableEq Term]

/-- `AddProjectionSelections`: the conjuncts of WHERE, each once. -/
def WithClause.conjuncts (clause : WithClause Term) : List (Expression Term) :=
  match clause.condition with
  | none => []
  | some condition => (splitConjunctivePredicates condition).eraseDups

def Language.buildProjectionClause (clause : WithClause Term) : Except String (QueryProjection Term) := do
  let projection ← language.buildProjectionBody clause
  return { projection with selections := clause.conjuncts }

end Clause

section Planning

variable {Term Value : Type} [DecidableEq Term] (language : Language Term Value)

def logicalProjectionItems (items : List (AliasedItem Term)) : List (ProjectionItem Term) :=
  items.map fun item => ⟨item.aliasName, some item.expression⟩

omit [DecidableEq Term] in
@[simp] theorem aliases_logicalProjectionItems (items : List (AliasedItem Term)) :
    (logicalProjectionItems items).map (·.aliasName) = items.map (·.aliasName) := by
  rw [logicalProjectionItems, List.map_map]
  rfl

def passthroughProjectionItems (aliases : List String) : List (ProjectionItem Term) :=
  aliases.map fun name => ⟨name, none⟩

def appendPassthroughProjectionItem (items : List (ProjectionItem Term)) (name : String) : List (ProjectionItem Term) :=
  if name ∈ items.map (·.aliasName) then items else items ++ [⟨name, none⟩]

def passthroughVariables (columns aliases names : List String) : List String :=
  (names.filter fun name => decide (name ∉ aliases) && decide (name ∈ columns)).eraseDups

def Language.projectionTailPassthroughVariables (columns aliases : List String) (projection : QueryProjection Term) :
    List String :=
  passthroughVariables columns aliases (projection.requiredOrder.flatMap fun item =>
    language.dependencies item.expression)

def Language.projectionSelectionPassthroughVariables (columns aliases : List String)
    (projection : QueryProjection Term) : List String :=
  passthroughVariables columns aliases (projection.selections.flatMap language.dependencies)

/-- `ApplyProjectionSelections`: every predicate not planned below is planned here. -/
def Language.applyProjectionSelections (plan : Plan Term Value) (selections planned : List (Expression Term)) :
    Except String (Plan Term Value) := do
  let (nowPlanned, filtered) := language.applyAvailableFilters selections planned plan
  selections.forM fun predicate => check (predicate ∈ nowPlanned)
    "logical plan: selection predicate with unmet dependencies is not supported"
  return filtered

def Language.validateProjectionTailExpressionsAvailable (plan : Plan Term Value) (projection : QueryProjection Term) :
    Except String Unit :=
  projection.requiredOrder.forM fun item => check (language.dependencies item.expression ⊆ plan.columns)
    "logical plan: ORDER BY expression with unmet dependencies after projection is not supported"

def Language.sortUnlessOrdered (plan : Plan Term Value) (order : List (SortItem Term)) : Plan Term Value :=
  if order.isEmpty || orderingSatisfies (language.orderingTrait plan) order then plan else .sort plan order

def skipAndLimit (plan : Plan Term Value) (skip limit : Option Nat) : Plan Term Value :=
  let skipped := match skip with
    | some count => .skip plan count
    | none => plan
  match limit with
  | some count => .limit skipped count
  | none => skipped

def Language.applyProjectionTail (plan : Plan Term Value) (planned : List (Expression Term))
    (projection : QueryProjection Term) (aliases : List String) : Except String (Plan Term Value) := do
  let filtered ← language.applyProjectionSelections plan projection.selections planned
  language.validateProjectionTailExpressionsAvailable filtered projection
  let tail := skipAndLimit (language.sortUnlessOrdered filtered projection.requiredOrder)
    projection.skip projection.limit
  return if tail.columns = aliases then tail else .projection tail (passthroughProjectionItems aliases)

/-- The items of `ApplyRegularProjection`: those of the clause, and the hidden
columns that its tail reads. -/
def Language.regularItems (columns : List String) (items : List (AliasedItem Term))
    (projection : QueryProjection Term) : List (ProjectionItem Term) :=
  let aliases := items.map (·.aliasName)
  (language.projectionTailPassthroughVariables columns aliases projection ++
    language.projectionSelectionPassthroughVariables columns aliases projection).foldl
    appendPassthroughProjectionItem (logicalProjectionItems items)

def Language.horizonPlan (plan : Plan Term Value) (projection : QueryProjection Term) : Plan Term Value :=
  match projection.horizon with
  | .regularProjection items => .projection plan (language.regularItems plan.columns items projection)
  | .distinctProjection groupingItems => .distinct plan (logicalProjectionItems groupingItems)
  | .aggregatingProjection _ groupingItems aggregationItems =>
    .aggregation plan (logicalProjectionItems groupingItems) (logicalProjectionItems aggregationItems)

def Horizon.aliases : Horizon Term → List String
  | .regularProjection items | .distinctProjection items | .aggregatingProjection items _ _ =>
    items.map (·.aliasName)

/-- `ApplyRegularProjection`, `ApplyDistinctProjection` and
`ApplyAggregatingProjection`, which begin and end alike. -/
def Language.applyProjection (plan : Plan Term Value) (projection : QueryProjection Term) :
    Except String (Plan Term Value) :=
  let (planned, filtered) := language.applyAvailableFilters projection.selections [] plan
  language.applyProjectionTail (language.horizonPlan filtered projection) planned projection projection.horizon.aliases

def Language.planWith (clause : WithClause Term) (plan : Plan Term Value) : Except String (Plan Term Value) := do
  let projection ← language.buildProjectionClause clause
  language.applyProjection plan projection

end Planning

section Meaning

variable {Term Value : Type} (language : Language Term Value)

def page (skip limit : Option Nat) (rows : List (Row Value)) : List (Row Value) :=
  let rest := rows.drop (skip.getD 0)
  match limit with
  | some count => rest.take count
  | none => rest

def Language.narrow (aliases : List String) (row : Row Value) : Row Value :=
  fun name => if name ∈ aliases then row name else language.null

/-- A row of the input under the aliases of the clause, which hide its own variables. -/
def Language.overlay (items : List (AliasedItem Term)) (row : Row Value) : Row Value :=
  fun name => if name ∈ items.map (·.aliasName) then language.rowOf (language.cells (logicalProjectionItems items) row) name
    else row name

def Language.sameOn (aliases : List String) (first second : Row Value) : Bool :=
  aliases.all fun name => language.same (first name) (second name)

def Language.projected (clause : WithClause Term) (rows : List (Row Value)) : List (Row Value) :=
  if (language.aggregationItems clause).isEmpty then
    if clause.distinct then
      (rows.map fun row => language.rowOf (language.cells (logicalProjectionItems clause.items) row)).eraseDupsBy
        (language.sameOn clause.aliases)
    else rows.map (language.overlay clause.items)
  else
    let grouped := language.aggregate (logicalProjectionItems (language.groupingItems clause))
      (logicalProjectionItems (language.aggregationItems clause)) rows
    if clause.distinct then grouped.eraseDupsBy (language.sameOn clause.aliases) else grouped

def Language.meets (condition : Option (Expression Term)) (row : Row Value) : Bool :=
  condition.all (language.holds · row)

/-- The rows of a `WITH`: project, sort, skip, limit, and then keep those whose WHERE is true. -/
def Language.withRows (clause : WithClause Term) (rows : List (Row Value)) : List (Row Value) :=
  ((page clause.skip clause.limit
    ((language.projected clause rows).insertionSort (language.inOrder clause.orderBy))).filter
    (language.meets clause.condition)).map (language.narrow clause.aliases)

end Meaning

end RocksGraph.Query
