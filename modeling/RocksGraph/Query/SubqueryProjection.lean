import RocksGraph.Query.WithRows

/-! EXISTS subqueries (`subquery_projection_dependency_rewriter.cc`).

A `WITH` drops what it does not name, but the outer variables of a subquery stay
visible behind it, so the rewriter adds those that the subquery reads to its
items. They have one value in all rows and separate nothing as keys. But an
aggregation without keys gets keys, and over no rows it then has no group. -/

set_option autoImplicit false

namespace RocksGraph.Query

open Foundation List

section Rewriter

variable {Term Value : Type}

/-- The items that the loop of `AddDependenciesToProjection` pushes. No
dependency occurs twice, so that none finds an item pushed before. -/
def dependencyItems (aliases dependencies : List String) : List (AliasedItem Term) :=
  (dependencies.filter (· ∉ aliases)).map fun name => ⟨name, .var name⟩

def addDependenciesToProjection (clause : WithClause Term) (dependencies : List String) : WithClause Term :=
  { clause with items := clause.items ++ dependencyItems clause.aliases dependencies }

/-- `MultiPartQuery::WithPart`, with what its reading clauses make of the rows. -/
structure WithPart (Term Value : Type) where
  reading : List (Row Value) → List (Row Value)
  withClause : WithClause Term

/-- `MultiPartQuery`, or `SinglePartQuery` without parts. A RETURN has no WHERE. -/
structure SingleQuery (Term Value : Type) where
  parts : List (WithPart Term Value)
  reading : List (Row Value) → List (Row Value)
  returnClause : Option { clause : WithClause Term // clause.condition = none }

/-- The RETURN that `SplitOrderedReturn` leaves behind the new WITH. -/
def returnAliases (clause : WithClause Term) : WithClause Term :=
  ⟨false, (clause.aliases.filter (· ≠ "")).map fun name => ⟨name, .var name⟩, [], none, none, none⟩

def splitOrderedTerminalReturn (query : SingleQuery Term Value) : SingleQuery Term Value :=
  match query.returnClause with
  | none => query
  | some clause =>
    if clause.1.orderBy.isEmpty then query
    else ⟨query.parts ++ [⟨query.reading, clause⟩], id, some ⟨returnAliases clause, rfl⟩⟩

def addDependenciesToPart (dependencies : List String) (part : WithPart Term Value) : WithPart Term Value :=
  { part with withClause := addDependenciesToProjection part.withClause dependencies }

def addDependenciesToSingleQuery (dependencies : List String) (query : SingleQuery Term Value) :
    SingleQuery Term Value :=
  let split := splitOrderedTerminalReturn query
  { split with parts := split.parts.map (addDependenciesToPart dependencies) }

section Meaning

-- The rows of a projection.
variable (project : WithClause Term → List (Row Value) → List (Row Value))

def partRows (parts : List (WithPart Term Value)) (rows : List (Row Value)) : List (Row Value) :=
  parts.foldl (fun rows part => project part.withClause (part.reading rows)) rows

def SingleQuery.rows (query : SingleQuery Term Value) (start : Row Value) : List (Row Value) :=
  let last := query.reading (partRows project query.parts [start])
  match query.returnClause with
  | none => last
  | some clause => project clause last

end Meaning

variable (language : Language Term Value) (outer : Row Value) (dependencies : List String)

/-- A row behind a projection, whose aliases alone hide the outer variables. -/
def visible (aliases : List String) (row : Row Value) : Row Value :=
  fun name => if name ∈ dependencies ∧ name ∉ aliases then outer name else row name

/-- `Language.withRows` where the outer variables are visible in the clause and behind it. -/
def Language.correlatedRows (clause : WithClause Term) (rows : List (Row Value)) : List (Row Value) :=
  let shown := visible outer dependencies clause.aliases
  ((page clause.skip clause.limit
    (((language.projected clause rows).map shown).insertionSort (language.inOrder clause.orderBy))).filter
    (language.meets clause.condition)).map fun row => shown (language.narrow clause.aliases row)

/-- EXISTS of a query and its UNION parts for an outer row. -/
def Language.existsRow (query : List (SingleQuery Term Value)) : Bool :=
  query.any fun single => decide
    (0 < (single.rows (language.correlatedRows outer dependencies) (language.narrow dependencies outer)).length)

/-- The same as it runs after the rewriter, where a WITH keeps its aliases only. -/
def Language.existsRewritten (query : List (SingleQuery Term Value)) : Bool :=
  (query.map (addDependenciesToSingleQuery dependencies)).any fun single => decide
    (0 < (single.rows language.withRows (language.narrow dependencies outer)).length)

/-- Nothing is added to the WITH, or the outer variables stand in the rows before it, so that no alias has taken one
over, and it does not make a row of none by aggregating alone. -/
def Language.Steady (clause : WithClause Term) (rows : List (Row Value)) : Prop :=
  dependencies ⊆ clause.aliases ∨ (∀ row ∈ rows, ∀ name ∈ dependencies, row name = outer name) ∧
    (language.aggregationItems clause = [] ∨ language.groupingItems clause ≠ [] ∨ rows ≠ [] ∨
      language.correlatedRows outer dependencies clause rows = [])

def Language.AllSteady : List (WithPart Term Value) → List (Row Value) → Prop
  | [], _ => True
  | part :: rest, rows => language.Steady outer dependencies part.withClause (part.reading rows) ∧
      Language.AllSteady rest (language.correlatedRows outer dependencies part.withClause (part.reading rows))

end Rewriter

section Added

variable {Term Value : Type} {language : Language Term Value} {outer : Row Value} {dependencies aliases : List String}
  {clause : WithClause Term} {rows : List (Row Value)}

variable (language) in
theorem Language.rowOf_added {row : Row Value} (shown : ∀ name ∈ dependencies, row name = outer name)
    {items : List (AliasedItem Term)} (inside : items.map (·.aliasName) ⊆ aliases) (rest : List (String × Value)) :
    language.rowOf (language.cells (logicalProjectionItems (items ++ dependencyItems aliases dependencies)) row ++ rest) =
      visible outer dependencies aliases (language.rowOf (language.cells (logicalProjectionItems items) row ++ rest)) := by
  have split : language.cells (logicalProjectionItems (items ++ dependencyItems aliases dependencies)) row =
      language.cells (logicalProjectionItems items) row ++
        language.cells (passthroughProjectionItems (dependencies.filter (· ∉ aliases))) row := by
    simp [cells, logicalProjectionItems, dependencyItems, passthroughProjectionItems, evaluate]
  funext name
  rw [split, append_assoc, language.rowOf_append, language.rowOf_append, language.rowOf_passthrough, visible,
    language.rowOf_append, language.cells_names, language.cells_names, aliases_logicalProjectionItems]
  simp only [narrow, passthroughProjectionItems, map_map, Function.comp_def, map_id', mem_filter, decide_eq_true_eq]
  grind

theorem aliases_added : (addDependenciesToProjection clause dependencies).aliases =
    clause.aliases ++ dependencies.filter (· ∉ clause.aliases) := by
  simp [addDependenciesToProjection, WithClause.aliases, dependencyItems, Function.comp_def]

theorem Language.aggregationItems_added :
    language.aggregationItems (addDependenciesToProjection clause dependencies) = language.aggregationItems clause := by
  simp [addDependenciesToProjection, aggregationItems, dependencyItems, filter_map, Function.comp_def, containsAggregation]

theorem Language.groupingItems_added : language.groupingItems (addDependenciesToProjection clause dependencies) =
    language.groupingItems clause ++ dependencyItems clause.aliases dependencies := by
  simp [addDependenciesToProjection, groupingItems, dependencyItems, filter_map, Function.comp_def, containsAggregation]

/-- Where all outer variables are hidden, the rewriter adds nothing. -/
theorem Language.withRows_hidden (hidden : dependencies ⊆ clause.aliases) :
    language.withRows (addDependenciesToProjection clause dependencies) rows =
      language.correlatedRows outer dependencies clause rows := by
  have none : dependencies.filter (· ∉ clause.aliases) = [] :=
    filter_eq_nil_iff.mpr fun name mem => by simpa using hidden mem
  have unchanged : visible outer dependencies clause.aliases = id := by
    funext row name
    exact if_neg fun shown => shown.2 (hidden shown.1)
  rw [addDependenciesToProjection, dependencyItems, none, map_nil, append_nil, withRows, correlatedRows, unchanged]
  simp only [map_id, id]

/-- Over no rows an aggregation with keys has no group. -/
theorem Language.withRows_keyed (aggregating : language.aggregationItems clause ≠ []) {name : String}
    (added : name ∈ dependencies) (free : name ∉ clause.aliases) :
    language.withRows (addDependenciesToProjection clause dependencies) [] = [] := by
  have keys : (dependencyItems clause.aliases dependencies : List (AliasedItem Term)) ≠ [] := by
    simp only [dependencyItems, ne_eq, map_eq_nil_iff, filter_eq_nil_iff]
    exact fun none => none name added (by simpa using free)
  have noGroup : language.aggregate (logicalProjectionItems (language.groupingItems clause ++
      dependencyItems clause.aliases dependencies)) (logicalProjectionItems (language.aggregationItems clause)) [] = [] := by
    rw [aggregate, if_neg (by simp [logicalProjectionItems, keys])]
    rfl
  rw [withRows, projected, aggregationItems_added, groupingItems_added, if_neg (by simpa using aggregating), noGroup]
  cases (addDependenciesToProjection clause dependencies).limit <;> simp [page]

theorem Language.length_returnAliases (clause : WithClause Term) (rows : List (Row Value)) :
    (language.withRows (returnAliases clause) rows).length = rows.length := by
  have flat : (language.aggregationItems (returnAliases clause)).isEmpty := by
    simp [aggregationItems, returnAliases, filter_map, Function.comp_def, containsAggregation]
  rw [withRows, projected, if_pos flat]
  simp [returnAliases, length_insertionSort]

variable (same : ∀ name ∈ dependencies, language.same (outer name) (outer name))
include same

theorem Language.eraseDupsBy_added (aliases : List String) (rows : List (Row Value)) :
    (rows.map (visible outer dependencies aliases)).eraseDupsBy
        (language.sameOn (aliases ++ dependencies.filter (· ∉ aliases))) =
      (rows.eraseDupsBy (language.sameOn aliases)).map (visible outer dependencies aliases) := by
  rw [eraseDupsBy_map]
  congr 2
  funext first second
  rw [Bool.eq_iff_iff]
  simp only [sameOn, visible, all_eq_true, mem_append, mem_filter, decide_eq_true_eq]
  grind

theorem Language.aggregate_added (shown : ∀ row ∈ rows, ∀ name ∈ dependencies, row name = outer name)
    {grouping : List (AliasedItem Term)} {aggregations : List (ProjectionItem Term)}
    (inside : grouping.map (·.aliasName) ⊆ aliases) (grouped : grouping ≠ [] ∨ rows ≠ []) :
    language.aggregate (logicalProjectionItems (grouping ++ dependencyItems aliases dependencies)) aggregations rows =
      (language.aggregate (logicalProjectionItems grouping) aggregations rows).map
        (visible outer dependencies aliases) := by
  have groups : groupsBy (language.sameGroup (logicalProjectionItems (grouping ++ dependencyItems aliases dependencies)))
      rows = groupsBy (language.sameGroup (logicalProjectionItems grouping)) rows := by
    have steady : rows.map (visible outer dependencies []) = rows := by
      refine (map_congr_left fun row mem => ?_).trans (map_id rows)
      funext name
      simp +contextual [visible, shown row mem]
    rw [← steady, groupsBy_map, groupsBy_map]
    congr 2
    funext first second
    rw [Bool.eq_iff_iff, language.sameGroup_iff, language.sameGroup_iff, forall_mem_append]
    refine and_iff_left fun item mem => ?_
    obtain ⟨name, found, rfl⟩ := mem_map.mp mem
    simp [evaluate, visible, mem_of_mem_filter found, same]
  rw [aggregate, if_neg (by simp [logicalProjectionItems]; grind), aggregate,
    if_neg (by simp [logicalProjectionItems]; grind), map_map, groups]
  refine map_congr_left fun group mem => ?_
  obtain ⟨first, found, rfl⟩ := mem_map.mp mem
  exact language.rowOf_added (shown first (mem_of_mem_eraseDupsBy found)) inside _

theorem Language.projected_added (shown : ∀ row ∈ rows, ∀ name ∈ dependencies, row name = outer name)
    (grouped : language.aggregationItems clause = [] ∨ language.groupingItems clause ≠ [] ∨ rows ≠ []) :
    language.projected (addDependenciesToProjection clause dependencies) rows =
      (language.projected clause rows).map (visible outer dependencies clause.aliases) := by
  have whole := fun row mem => language.rowOf_added (shown row mem) (List.Subset.refl clause.aliases) []
  simp only [append_nil] at whole
  have inside : (language.groupingItems clause).map (·.aliasName) ⊆ clause.aliases := (filter_sublist.map _).subset
  rw [projected, projected, aggregationItems_added, groupingItems_added, aliases_added]
  split
  case isTrue flat =>
    change (if clause.distinct then _ else _) = _
    split
    case isTrue distinct =>
      rw [← eraseDupsBy_added same, map_map]
      exact congrArg _ (map_congr_left whole)
    case isFalse plain =>
      rw [map_map]
      refine map_congr_left fun row mem => ?_
      funext name
      change (if name ∈ (addDependenciesToProjection clause dependencies).aliases then language.rowOf _ name else _) = _
      rw [aliases_added, addDependenciesToProjection, whole row mem]
      grind [visible, overlay, WithClause.aliases]
  case isFalse aggregating =>
    rw [aggregate_added same shown inside (grouped.resolve_left (by simpa using aggregating))]
    change (if clause.distinct then _ else _) = _
    split
    case isTrue distinct => exact eraseDupsBy_added same ..
    case isFalse all => rfl

/-- Of one clause, the condition is exact. -/
theorem Language.withRows_added_iff (shown : ∀ row ∈ rows, ∀ name ∈ dependencies, row name = outer name)
    (added : ¬ dependencies ⊆ clause.aliases) :
    language.withRows (addDependenciesToProjection clause dependencies) rows =
        language.correlatedRows outer dependencies clause rows ↔
      language.aggregationItems clause = [] ∨ language.groupingItems clause ≠ [] ∨ rows ≠ [] ∨
        language.correlatedRows outer dependencies clause rows = [] := by
  by_cases grouped : language.aggregationItems clause = [] ∨ language.groupingItems clause ≠ [] ∨ rows ≠ []
  · refine iff_of_true ?_ (by tauto)
    rw [withRows, projected_added same shown grouped, correlatedRows]
    refine map_congr_left fun row mem => ?_
    have inside := mem_of_mem_page (mem_of_mem_filter mem)
    obtain ⟨plain, -, rfl⟩ := mem_map.mp ((mem_insertionSort _).mp inside)
    funext name
    simp only [narrow, aliases_added, visible, mem_append, mem_filter, decide_eq_true_eq]
    grind
  · simp only [not_or, not_not] at grouped
    obtain ⟨aggregating, ungrouped, rfl⟩ := grouped
    obtain ⟨name, depends, free⟩ := not_forall₂.mp added
    rw [language.withRows_keyed aggregating depends free, eq_comm]
    simp [aggregating, ungrouped]

theorem Language.withRows_added (steady : language.Steady outer dependencies clause rows) :
    language.withRows (addDependenciesToProjection clause dependencies) rows =
      language.correlatedRows outer dependencies clause rows := by
  by_cases hidden : dependencies ⊆ clause.aliases
  · exact language.withRows_hidden hidden
  · obtain ⟨shown, kept⟩ := steady.resolve_left hidden
    exact (language.withRows_added_iff same shown hidden).mpr kept

theorem partRows_added {parts : List (WithPart Term Value)} (steady : language.AllSteady outer dependencies parts rows) :
    partRows language.withRows (parts.map (addDependenciesToPart dependencies)) rows =
      partRows (language.correlatedRows outer dependencies) parts rows := by
  induction parts generalizing rows with
  | nil => rfl
  | cons part rest ih =>
    rw [map_cons, partRows, foldl_cons, addDependenciesToPart, language.withRows_added same steady.1]
    exact ih steady.2

theorem length_rows_added {single : SingleQuery Term Value} {start : Row Value}
    (steady : language.AllSteady outer dependencies (splitOrderedTerminalReturn single).parts [start]) :
    ((addDependenciesToSingleQuery dependencies single).rows language.withRows start).length =
      (single.rows (language.correlatedRows outer dependencies) start).length := by
  obtain ⟨parts, reading, returned⟩ := single
  cases returned with
  | none => exact congrArg (fun rows => (reading rows).length) (partRows_added same steady)
  | some clause =>
    rw [addDependenciesToSingleQuery]
    unfold splitOrderedTerminalReturn at steady ⊢
    dsimp only at steady ⊢
    split at steady
    case isTrue plain =>
      rw [if_pos plain]
      change (language.withRows clause (reading (partRows language.withRows (parts.map _) [start]))).length = _
      rw [partRows_added same steady]
      cases limit : clause.1.limit <;>
        simp [SingleQuery.rows, Language.withRows, Language.correlatedRows, clause.2, page, limit, length_insertionSort]
    case isFalse ordered =>
      rw [if_neg ordered]
      change (language.withRows (returnAliases clause) (partRows language.withRows (map _ (parts ++ _)) _)).length = _
      rw [language.length_returnAliases, partRows_added same steady, partRows, foldl_append]
      rfl

end Added

/-- `EXISTS { MATCH (a)-->(b) WITH count(b) AS c RETURN c ORDER BY c DESC }`. -/
def countSubquery (matched : List (Row (Option Int)) → List (Row (Option Int))) : SingleQuery Comparison (Option Int) :=
  ⟨[⟨matched, ⟨false, [⟨"c", .term .count⟩], [], none, none, none⟩⟩], id,
    some ⟨⟨false, [⟨"c", .var "c"⟩], [⟨.var "c", true⟩], none, none, none⟩, rfl⟩⟩

end RocksGraph.Query
