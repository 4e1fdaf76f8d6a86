import RocksGraph.Query.Projection

/-! The tail of a projection: filters, sorting, skipping, limiting and narrowing.

A projection is looked at as a list of elements, each of which becomes one row of
the plan and one row of the clause. Where the two agree on the columns of the
plan, the tail of the plan makes of its rows what the clause makes of its own. -/

set_option autoImplicit false

namespace RocksGraph.Query

open Foundation List

variable {Term Value : Type}

section Tail

@[simp] theorem page_none (rows : List (Row Value)) : page none none rows = rows := rfl

theorem map_page (change : Row Value → Row Value) (skip limit : Option Nat) (rows : List (Row Value)) :
    (page skip limit rows).map change = page skip limit (rows.map change) := by
  cases limit <;> simp [page]

theorem mem_of_mem_page {skip limit : Option Nat} {rows : List (Row Value)} {row : Row Value}
    (mem : row ∈ page skip limit rows) : row ∈ rows := by
  cases limit with
  | none => exact mem_of_mem_drop mem
  | some count => exact mem_of_mem_drop (mem_of_mem_take mem)

variable (language : Language Term Value)

theorem Language.rowOf_append (first second : List (String × Value)) (name : String) :
    language.rowOf (first ++ second) name =
      if name ∈ first.map Prod.fst then language.rowOf first name else language.rowOf second name := by
  induction first with
  | nil => simp
  | cons cell rest ih =>
    obtain ⟨held, value⟩ := cell
    rw [cons_append, rowOf_cons, rowOf_cons, ih, map_cons]
    grind

theorem Language.rowOf_passthrough (aliases : List String) (row : Row Value) :
    language.rowOf (language.cells (passthroughProjectionItems aliases) row) = language.narrow aliases row := by
  funext name
  induction aliases with
  | nil => simp [passthroughProjectionItems, cells, narrow]
  | cons first rest ih =>
    rw [passthroughProjectionItems, map_cons, cells, map_cons, rowOf_cons]
    by_cases same : name = first
    · simp [same, narrow]
    rw [if_neg same]
    refine ih.trans ?_
    simp [narrow, same]

variable {order : List (SortItem Term)}

theorem Language.inOrder_congr {first second first' second' : Row Value}
    (agree : ∀ item ∈ order, ∀ name ∈ language.dependencies item.expression,
      first name = first' name ∧ second name = second' name) :
    language.inOrder order first second ↔ language.inOrder order first' second' := by
  have same : lexCompare language.compareItem order first second =
      lexCompare language.compareItem order first' second' := by
    induction order with
    | nil => rfl
    | cons item rest ih =>
      rw [forall_mem_cons] at agree
      have here : language.compareItem item first second = language.compareItem item first' second' := by
        simp [compareItem, language.evaluate_congr fun name mem => (agree.1 name mem).1,
          language.evaluate_congr fun name mem => (agree.1 name mem).2]
      rw [lexCompare, lexCompare, here, ih agree.2]
  rw [inOrder, inOrder, same]

theorem skipAndLimit_spec (plan : Plan Term Value) (skip limit : Option Nat) :
    language.rows (skipAndLimit plan skip limit) = page skip limit (language.rows plan) ∧
      (skipAndLimit plan skip limit).columns = plan.columns := by
  cases skip <;> cases limit <;> exact ⟨rfl, rfl⟩

variable [DecidableEq Term]

theorem Language.rows_sortUnlessOrdered {plan : Plan Term Value}
    (ordered : orderingSatisfies (language.orderingTrait plan) order →
      (language.rows plan).Pairwise (language.inOrder order)) :
    language.rows (language.sortUnlessOrdered plan order) =
      (language.rows plan).insertionSort (language.inOrder order) := by
  unfold sortUnlessOrdered
  split
  case isFalse unordered => rfl
  case isTrue unsorted =>
    rcases Bool.or_eq_true_iff.mp unsorted with empty | satisfied
    · rw [isEmpty_iff.mp empty]
      exact (List.Pairwise.insertionSort_eq (pairwise_of_forall fun _ _ => rfl)).symm
    · exact (List.Pairwise.insertionSort_eq (ordered satisfied)).symm

theorem Language.rows_applyProjectionTail (plan : Plan Term Value) (planned : List (Expression Term))
    (projection : QueryProjection Term) (aliases : List String)
    (reached : ∀ predicate ∈ projection.selections,
      predicate ∈ planned ∨ language.dependencies predicate ⊆ plan.columns)
    (inScope : ∀ item ∈ projection.requiredOrder, language.dependencies item.expression ⊆ plan.columns)
    (closed : ∀ row ∈ language.rows plan, ∀ name, name ∉ plan.columns → row name = language.null)
    (ordered : orderingSatisfies (language.orderingTrait plan) projection.requiredOrder →
      (language.rows plan).Pairwise (language.inOrder projection.requiredOrder)) :
    ∃ result, language.applyProjectionTail plan planned projection aliases = .ok result ∧
      language.rows result = (page projection.skip projection.limit
        (((language.rows plan).filter (language.passes projection.selections planned plan.columns)).insertionSort
          (language.inOrder projection.requiredOrder))).map (language.narrow aliases) := by
  let filtered := (language.applyAvailableFilters projection.selections planned plan).2
  have columns : filtered.columns = plan.columns := language.columns_applyAvailableFilters _ _ _
  have trait : language.orderingTrait filtered = language.orderingTrait plan :=
    language.orderingTrait_applyAvailableFilters _ _ _
  have rows : language.rows filtered =
      (language.rows plan).filter (language.passes projection.selections planned plan.columns) :=
    language.rows_applyAvailableFilters _ _ _
  have selected : language.applyProjectionSelections plan projection.selections planned = .ok filtered := by
    refine check_bind_eq_ok.mpr ⟨forM_eq_ok.mpr fun predicate mem => check_eq_ok.mpr ?_, rfl⟩
    refine language.mem_applyAvailableFilters.mpr ?_
    rcases reached predicate mem with before | available
    · exact .inl before
    · exact .inr ⟨mem, available⟩
  have validated : language.validateProjectionTailExpressionsAvailable filtered projection = .ok () :=
    forM_eq_ok.mpr fun item mem => check_eq_ok.mpr (columns ▸ inScope item mem)
  let tail := skipAndLimit (language.sortUnlessOrdered filtered projection.requiredOrder) projection.skip projection.limit
  have tailRows : language.rows tail = page projection.skip projection.limit
      ((language.rows filtered).insertionSort (language.inOrder projection.requiredOrder)) := by
    rw [(skipAndLimit_spec language ..).1, language.rows_sortUnlessOrdered]
    intro satisfied
    rw [rows]
    exact (ordered (trait ▸ satisfied)).filter _
  have tailColumns : tail.columns = plan.columns := by
    rw [(skipAndLimit_spec language ..).2, sortUnlessOrdered]
    split <;> exact columns
  rw [← rows, ← tailRows]
  refine ⟨_, bind_eq_ok.mpr ⟨filtered, selected, check_bind_eq_ok.mpr ⟨validated, rfl⟩⟩, ?_⟩
  split
  case isTrue same =>
    -- Without the last projection the rows have no other columns to begin with.
    have narrowed : ∀ row ∈ language.rows tail, language.narrow aliases row = row := by
      intro row mem
      rw [tailRows, rows] at mem
      have inside := mem_of_mem_filter ((mem_insertionSort _).mp (mem_of_mem_page mem))
      funext name
      by_cases present : name ∈ aliases
      · exact if_pos present
      · rw [closed row inside name fun own => present (same ▸ tailColumns ▸ own)]
        exact if_neg present
    rw [map_congr_left narrowed, map_id']
  case isFalse other =>
    refine map_congr_left fun row _ => language.rowOf_passthrough aliases row

omit [DecidableEq Term] in
@[simp] theorem Language.filter_meets_none (rows : List (Row Value)) : rows.filter (language.meets none) = rows :=
  filter_eq_self.mpr fun _ _ => rfl

/-- The rows of a clause that counts what WHERE has left. -/
def Language.countedLast (clause : WithClause Term) (projected : List (Row Value)) : List (Row Value) :=
  (page clause.skip clause.limit ((projected.insertionSort (language.inOrder clause.orderBy)).filter
    (language.meets clause.condition))).map (language.narrow clause.aliases)

/-- SKIP and LIMIT leave the same rows whether they count before or after WHERE. -/
def Language.Paged (clause : WithClause Term) (rows : List (Row Value)) : Prop :=
  language.countedLast clause (language.projected clause rows) = language.withRows clause rows

omit [DecidableEq Term] in
/-- Elements that become one row `code` of the plan and one row `spec` of the clause. Filtering by one part of WHERE
before the rows are made and by the other part after it is filtering before the rows are counted. -/
theorem Language.page_filter_eq {Element : Type} (clause : WithClause Term) {elements : List Element}
    {code spec : Element → Row Value} {early : Element → Bool} {late : Row Value → Bool}
    (selected : ∀ element ∈ elements, (early element && late (code element)) =
      language.meets clause.condition (spec element))
    (ordered : ∀ first ∈ elements, ∀ second ∈ elements, language.inOrder clause.orderBy (code first) (code second) ↔
      language.inOrder clause.orderBy (spec first) (spec second))
    (narrowed : ∀ element ∈ elements, language.narrow clause.aliases (code element) =
      language.narrow clause.aliases (spec element)) :
    (page clause.skip clause.limit ((((elements.filter early).map code).filter late).insertionSort
        (language.inOrder clause.orderBy))).map (language.narrow clause.aliases) =
      language.countedLast clause (elements.map spec) := by
  let remaining := elements.filter fun element => language.meets clause.condition (spec element)
  have remains : ∀ element ∈ remaining, element ∈ elements := fun _ mem => mem_of_mem_filter mem
  have filtered : ((elements.filter early).map code).filter late = remaining.map code := by
    rw [filter_map, filter_filter]
    congr 1
    refine filter_congr fun element mem => ?_
    rw [← selected element mem, Bool.and_comm]
    rfl
  have late_eq : ((elements.map spec).insertionSort (language.inOrder clause.orderBy)).filter
      (language.meets clause.condition) = (remaining.map spec).insertionSort (language.inOrder clause.orderBy) := by
    rw [filter_insertionSort, filter_map]
    rfl
  -- both sides sort the elements by their rows in the clause
  rw [countedLast, filtered, late_eq, map_page, map_page,
    ← map_insertionSort (fun first second => language.inOrder clause.orderBy (spec first) (spec second)) _ code remaining
      fun first one second two => (ordered first (remains first one) second (remains second two)).symm,
    ← map_insertionSort (fun first second => language.inOrder clause.orderBy (spec first) (spec second)) _ spec remaining
      fun _ _ _ _ => Iff.rfl, map_map, map_map]
  congr 1
  refine map_congr_left fun element mem => ?_
  exact narrowed element (remains element ((mem_insertionSort _).mp mem))

end Tail

/-! ## Clauses that the plan keeps whole -/

section Conditions

variable [DecidableEq Term] (language : Language Term Value)

def Language.plain (clause : WithClause Term) : Bool :=
  (language.aggregationItems clause).isEmpty && !clause.distinct

/-- The semantic checks on a `WITH` over an input with these columns. -/
structure Language.InScope (clause : WithClause Term) (columns : List String) : Prop where
  named : ∀ item ∈ clause.items, item.aliasName ≠ ""
  unique : clause.aliases.Nodup
  condition : ∀ predicate ∈ clause.condition, language.dependencies predicate ⊆ columns ++ clause.aliases
  orderBy : ∀ item ∈ clause.orderBy, language.dependencies item.expression ⊆
    if language.plain clause then columns ++ clause.aliases else clause.aliases

/-- The conjuncts of WHERE that the input can evaluate, which are filtered by below the projection. -/
def Language.pushed (clause : WithClause Term) (columns : List String) : List (Expression Term) :=
  clause.conjuncts.filter fun predicate => language.dependencies predicate ⊆ columns

def WithClause.keeps (clause : WithClause Term) (name : String) : Prop := ⟨name, .var name⟩ ∈ clause.items

instance (clause : WithClause Term) (name : String) : Decidable (clause.keeps name) :=
  inferInstanceAs (Decidable (_ ∈ clause.items))

/-- Where filtering early, and trusting the order of the input, makes no difference. -/
structure Language.Untangled (clause : WithClause Term) (columns : List String) (ordering : List (SortItem Term))
    (rows : List (Row Value)) : Prop where
  /-- What is filtered by below the projection has the same result above it. -/
  unhidden : language.plain clause → ∀ row ∈ rows, ∀ predicate ∈ language.pushed clause columns,
    language.holds predicate row = language.holds predicate (language.overlay clause.items row)
  /-- The same for names that groups are made by. -/
  kept : language.plain clause = false → ∀ predicate ∈ language.pushed clause columns,
    ∀ name ∈ language.dependencies predicate, name ∈ clause.aliases → clause.keeps name
  /-- Above DISTINCT and aggregates there are only aliases. -/
  projected : language.plain clause = false → ∀ predicate ∈ clause.conjuncts,
    language.dependencies predicate ⊆ clause.aliases
  /-- The one row of an aggregate without groups is not filtered by below it. -/
  ungrouped : language.aggregationItems clause ≠ [] → language.groupingItems clause = [] →
    ∀ predicate ∈ language.pushed clause columns, language.holds predicate fun _ => language.null
  /-- Rows of one group are all filtered out or none is. -/
  uniform : language.plain clause = false → ∀ first ∈ rows, ∀ second ∈ rows,
    language.sameGroup (logicalProjectionItems (language.groupingItems clause)) first second →
    ∀ predicate ∈ language.pushed clause columns, language.holds predicate first = language.holds predicate second
  /-- Ordered by names the clause keeps, if it is to be in this order and no alias stands for the whole key. -/
  ordered : language.plain clause → ∀ item ∈ clause.orderBy, item ∈ ordering →
    (∀ other ∈ clause.items, other.expression ≠ item.expression) →
    ∀ name ∈ language.dependencies item.expression, name ∈ clause.aliases → clause.keeps name

variable {language}

theorem WithClause.all_conjuncts (clause : WithClause Term) (row : Row Value) :
    clause.conjuncts.all (language.holds · row) = language.meets clause.condition row := by
  unfold conjuncts
  cases clause.condition with
  | none => rfl
  | some condition =>
    refine Eq.trans ?_ (language.all_splitConjunctivePredicates condition row)
    rw [Bool.eq_iff_iff, all_eq_true, all_eq_true]
    simp

theorem Language.InScope.conjuncts {clause : WithClause Term} {columns : List String}
    (inScope : language.InScope clause columns) {predicate : Expression Term} (mem : predicate ∈ clause.conjuncts) :
    language.dependencies predicate ⊆ columns ++ clause.aliases := by
  unfold WithClause.conjuncts at mem
  cases given : clause.condition with
  | none => simp [given] at mem
  | some condition =>
    rw [given] at mem
    have split := language.dependencies_splitConjunctivePredicates (mem_eraseDups.mp mem)
    exact List.Subset.trans split (inScope.condition condition given)

theorem Language.InScope.buildProjectionClause_eq {clause : WithClause Term} {columns : List String}
    (inScope : language.InScope clause columns) :
    language.buildProjectionClause clause =
      .ok ⟨language.horizon clause, clause.orderBy, clause.skip, clause.limit, clause.conjuncts⟩ := by
  have named : (clause.items.forM fun item =>
      check (item.aliasName ≠ "") "projection item alias is empty after rewrite") = .ok () :=
    forM_eq_ok.mpr fun item mem => check_eq_ok.mpr (inScope.named item mem)
  unfold buildProjectionClause buildProjectionBody
  rw [named]
  rfl

/-- Filtering a row below the projection and again above it, if every conjunct means at its place what it means
for the row of the clause. -/
theorem Language.passes_and_passes {selections planned : List (Expression Term)} {columns above : List String}
    {before code spec : Row Value}
    (isPlanned : ∀ predicate ∈ selections, predicate ∈ planned ↔ language.dependencies predicate ⊆ columns)
    (below : ∀ predicate ∈ selections, language.dependencies predicate ⊆ columns →
      language.holds predicate before = language.holds predicate spec)
    (after : ∀ predicate ∈ selections, ¬ language.dependencies predicate ⊆ columns →
      language.dependencies predicate ⊆ above ∧ language.holds predicate code = language.holds predicate spec) :
    (language.passes selections [] columns before && language.passes selections planned above code) =
      selections.all (language.holds · spec) := by
  rw [Bool.eq_iff_iff, Bool.and_eq_true, all_eq_true, passes, passes, all_eq_true, all_eq_true,
    ← forall₂_and]
  refine forall₂_congr fun predicate mem => ?_
  by_cases available : language.dependencies predicate ⊆ columns
  · simp [available, (isPlanned predicate mem).mpr available, below predicate mem available]
  obtain ⟨reached, same⟩ := after predicate mem available
  have unplanned : predicate ∉ planned := mt (isPlanned predicate mem).mp available
  simp [available, unplanned, reached, same]

end Conditions

section Elements

variable [DecidableEq Term] {language : Language Term Value} {clause : WithClause Term} {columns : List String}

theorem Language.applyProjectionTail_of_elements {Element : Type} {plan : Plan Term Value}
    {planned : List (Expression Term)} {horizon : Horizon Term} {elements : List Element}
    (before code spec : Element → Row Value)
    (isPlanned : ∀ predicate ∈ clause.conjuncts, predicate ∈ planned ↔ language.dependencies predicate ⊆ columns)
    (rows : language.rows plan =
      (elements.filter fun element => language.passes clause.conjuncts [] columns (before element)).map code)
    (closed : ∀ element ∈ elements, ∀ name, name ∉ plan.columns → code element name = language.null)
    (ordered : orderingSatisfies (language.orderingTrait plan) clause.orderBy →
      (language.rows plan).Pairwise (language.inOrder clause.orderBy))
    (orderBy : ∀ item ∈ clause.orderBy, language.dependencies item.expression ⊆ plan.columns)
    (above : ∀ predicate ∈ clause.conjuncts, ¬ language.dependencies predicate ⊆ columns →
      language.dependencies predicate ⊆ plan.columns)
    (aliases : clause.aliases ⊆ plan.columns)
    (agree : ∀ element ∈ elements, ∀ name ∈ plan.columns, code element name = spec element name)
    (below : ∀ element ∈ elements, ∀ predicate ∈ language.pushed clause columns,
      language.holds predicate (before element) = language.holds predicate (spec element)) :
    ∃ result, language.applyProjectionTail plan planned
        ⟨horizon, clause.orderBy, clause.skip, clause.limit, clause.conjuncts⟩ clause.aliases = .ok result ∧
      language.rows result = language.countedLast clause (elements.map spec) := by
  have reached : ∀ predicate ∈ clause.conjuncts,
      predicate ∈ planned ∨ language.dependencies predicate ⊆ plan.columns := by
    intro predicate mem
    by_cases available : language.dependencies predicate ⊆ columns
    · exact .inl ((isPlanned predicate mem).mpr available)
    · exact .inr (above predicate mem available)
  have closedRows : ∀ row ∈ language.rows plan, ∀ name, name ∉ plan.columns → row name = language.null := by
    intro row mem
    rw [rows] at mem
    obtain ⟨element, inside, rfl⟩ := mem_map.mp mem
    exact closed element (mem_of_mem_filter inside)
  obtain ⟨result, planning, produced⟩ := language.rows_applyProjectionTail plan planned
    ⟨horizon, clause.orderBy, clause.skip, clause.limit, clause.conjuncts⟩ clause.aliases reached orderBy closedRows ordered
  refine ⟨result, planning, produced.trans ?_⟩
  rw [rows]
  refine language.page_filter_eq clause ?_ ?_ ?_
  · intro element mem
    rw [← clause.all_conjuncts]
    refine language.passes_and_passes isPlanned (fun predicate inWhere available => ?_)
      fun predicate inWhere unavailable => ⟨above predicate inWhere unavailable, ?_⟩
    · exact below element mem predicate (mem_filter.mpr ⟨inWhere, decide_eq_true available⟩)
    · exact language.holds_congr fun name used =>
        agree element mem name (above predicate inWhere unavailable used)
  · intro first one second two
    exact language.inOrder_congr fun item inOrder name used =>
      ⟨agree first one name (orderBy item inOrder used), agree second two name (orderBy item inOrder used)⟩
  · intro element mem
    funext name
    by_cases present : name ∈ clause.aliases
    · simp [narrow, agree element mem name (aliases present)]
    · simp [narrow, if_neg present]

end Elements

end RocksGraph.Query
