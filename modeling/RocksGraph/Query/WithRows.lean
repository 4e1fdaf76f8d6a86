import RocksGraph.Query.ProjectionTail

/-! When the plan of a `WITH` produces the rows of the clause.

A plain clause becomes a projection that carries the input variables its tail
reads beside the aliases. DISTINCT and aggregates make their rows from groups of
input rows, and a filter passes through them if it takes groups as a whole. -/

set_option autoImplicit false

namespace RocksGraph.Query

open Foundation List

variable {Term Value : Type}

variable {first second : Row Value}

section Regular

variable (language : Language Term Value)

theorem Language.rowOf_cells {items : List (AliasedItem Term)} (unique : (items.map (·.aliasName)).Nodup)
    {item : AliasedItem Term} (mem : item ∈ items) (row : Row Value) :
    language.rowOf (language.cells (logicalProjectionItems items) row) item.aliasName =
      language.evaluate item.expression row := by
  refine language.rowOf_of_mem ?_ ?_
  · rwa [language.cells_names, aliases_logicalProjectionItems]
  · exact mem_map.mpr ⟨⟨item.aliasName, some item.expression⟩, mem_map_of_mem mem, rfl⟩

variable {names : List String} {name : String}

/-- What is appended passes on the names that no item has yet. -/
theorem foldl_append_eq (names : List String) (items : List (ProjectionItem Term)) :
    ∃ passed, names.foldl appendPassthroughProjectionItem items = items ++ passthroughProjectionItems passed ∧
      ∀ name, name ∈ passed ↔ name ∈ names ∧ name ∉ items.map (·.aliasName) := by
  induction names generalizing items with
  | nil => exact ⟨[], by simp [passthroughProjectionItems], by simp⟩
  | cons first rest ih =>
    rw [foldl_cons, appendPassthroughProjectionItem]
    split
    case isTrue present =>
      obtain ⟨passed, same, mem⟩ := ih items
      exact ⟨passed, same, fun name => by grind⟩
    case isFalse absent =>
      obtain ⟨passed, same, mem⟩ := ih (items ++ [⟨first, none⟩])
      refine ⟨first :: passed, by simp [same, passthroughProjectionItems], fun name => ?_⟩
      rw [mem_cons, mem]
      grind

variable {items : List (ProjectionItem Term)}

theorem mem_aliases_foldl_append :
    name ∈ (names.foldl appendPassthroughProjectionItem items).map (·.aliasName) ↔
      name ∈ items.map (·.aliasName) ∨ name ∈ names := by
  obtain ⟨passed, same, mem⟩ := foldl_append_eq names items
  rw [same, map_append, mem_append, passthroughProjectionItems, map_map, Function.comp_def, map_id', mem]
  tauto

variable {item : ProjectionItem Term}

theorem mem_foldl_append
    (mem : item ∈ names.foldl appendPassthroughProjectionItem items) : item ∈ items ∨ item.expression = none := by
  obtain ⟨passed, same, -⟩ := foldl_append_eq names items
  rw [same] at mem
  refine (mem_append.mp mem).imp_right fun added => ?_
  obtain ⟨name, -, rfl⟩ := mem_map.mp added
  rfl

theorem mem_foldl_append_of_mem
    (mem : item ∈ items) : item ∈ names.foldl appendPassthroughProjectionItem items := by
  obtain ⟨passed, same, -⟩ := foldl_append_eq names items
  exact same ▸ mem_append_left _ mem

theorem Language.rowOf_foldl_append (items : List (ProjectionItem Term)) (names : List String) (row : Row Value)
    (name : String) :
    language.rowOf (language.cells (names.foldl appendPassthroughProjectionItem items) row) name =
      if name ∈ items.map (·.aliasName) then language.rowOf (language.cells items row) name
      else if name ∈ names then row name else language.null := by
  obtain ⟨passed, same, mem⟩ := foldl_append_eq names items
  have split : language.cells (items ++ passthroughProjectionItems passed) row =
      language.cells items row ++ language.cells (passthroughProjectionItems passed) row := map_append
  rw [same, split, language.rowOf_append, language.rowOf_passthrough, language.cells_names, narrow]
  simp only [mem]
  grind

variable {language} {clause : WithClause Term}

theorem Language.overlay_of_mem (unique : clause.aliases.Nodup) {item : AliasedItem Term} (mem : item ∈ clause.items)
    (row : Row Value) : language.overlay clause.items row item.aliasName = language.evaluate item.expression row := by
  rw [overlay, if_pos (mem_map_of_mem mem), language.rowOf_cells unique mem]

theorem Language.overlay_of_keeps (unique : clause.aliases.Nodup)
    (kept : name ∈ clause.aliases → clause.keeps name) (row : Row Value) :
    language.overlay clause.items row name = row name := by
  by_cases mem : name ∈ clause.aliases
  · exact language.overlay_of_mem unique (kept mem) row
  · exact if_neg mem

variable [DecidableEq Term] {columns : List String}

abbrev WithClause.regular (clause : WithClause Term) : QueryProjection Term :=
  ⟨.regularProjection clause.items, clause.orderBy, clause.skip, clause.limit, clause.conjuncts⟩

variable (language) in
def Language.regularRow (columns : List String) (clause : WithClause Term) (row : Row Value) : Row Value :=
  language.rowOf (language.cells (language.regularItems columns clause.items clause.regular) row)

theorem Language.mem_regularItems :
    name ∈ (language.regularItems columns clause.items clause.regular).map (·.aliasName) ↔
      name ∈ clause.aliases ∨ name ∈ columns ∧
        ((∃ item ∈ clause.orderBy, name ∈ language.dependencies item.expression) ∨
          ∃ predicate ∈ clause.conjuncts, name ∈ language.dependencies predicate) := by
  rw [regularItems, mem_aliases_foldl_append, aliases_logicalProjectionItems, mem_append,
    projectionTailPassthroughVariables, projectionSelectionPassthroughVariables]
  simp only [WithClause.aliases, passthroughVariables, mem_eraseDups]
  grind

theorem Language.regularRow_eq_overlay (row : Row Value)
    (mem : name ∈ (language.regularItems columns clause.items clause.regular).map (·.aliasName)) :
    language.regularRow columns clause row name = language.overlay clause.items row name := by
  unfold regularRow overlay
  rw [regularItems, mem_aliases_foldl_append, aliases_logicalProjectionItems] at mem
  rw [regularItems, language.rowOf_foldl_append, aliases_logicalProjectionItems]
  split
  case isTrue inside => rfl
  case isFalse outside => exact if_pos (mem.resolve_left outside)

theorem Language.inOrder_projectOrdering {first' second' : Row Value}
    {ordering order : List (SortItem Term)} (satisfied : order <+: language.projectOrdering items ordering)
    (alike : ∀ item ∈ ordering, ∀ projected ∈ order, language.projectOrderItem items item = some projected →
      language.compareItem item first second = language.compareItem projected first' second')
    (ordered : language.inOrder ordering first second) : language.inOrder order first' second' := by
  induction ordering generalizing order with
  | nil => rw [prefix_nil.mp satisfied]; rfl
  | cons item rest ih =>
    cases order with
    | nil => rfl
    | cons wanted others =>
      unfold projectOrdering at satisfied
      cases found : language.projectOrderItem items item with
      | none => simp [found] at satisfied
      | some projected =>
        rw [found] at satisfied
        obtain ⟨rfl, restSatisfied⟩ := cons_prefix_cons.mp satisfied
        have here := alike item mem_cons_self wanted mem_cons_self found
        simp only [inOrder, lexCompare, ← here] at ordered ⊢
        cases step : language.compareItem item first second with
        | lt => rfl
        | gt => simp [step] at ordered
        | eq =>
          rw [step] at ordered
          exact ih restSatisfied (fun other mem projected wantedMember => alike other (mem_cons_of_mem _ mem)
            projected (mem_cons_of_mem _ wantedMember)) ordered

variable {item projected : SortItem Term}

theorem Language.descending_projectOrderItem
    (found : language.projectOrderItem items item = some projected) : item.descending = projected.descending := by
  unfold projectOrderItem at found
  split at found
  · rw [← Option.some.inj found]
  split at found
  · rw [← Option.some.inj found]
  · cases found

theorem Language.evaluate_projectOrderItem (unique : clause.aliases.Nodup)
    (found : language.projectOrderItem (language.regularItems columns clause.items clause.regular) item = some projected)
    (kept : item = projected → (∀ other ∈ clause.items, other.expression ≠ item.expression) →
      ∀ name ∈ language.dependencies item.expression, name ∈ clause.aliases → clause.keeps name) (row : Row Value) :
    language.evaluate item.expression row =
      language.evaluate projected.expression (language.regularRow columns clause row) := by
  unfold projectOrderItem at found
  split at found
  case h_1 matching holder =>
    -- An item of the clause has the same expression; the key is its alias.
    obtain rfl := Option.some.inj found
    have expression : matching.expression = some item.expression := of_decide_eq_true (find?_some holder :)
    have inItems := mem_of_find?_eq_some holder
    have own : matching ∈ logicalProjectionItems clause.items := by
      refine (mem_foldl_append inItems).resolve_right ?_
      rw [expression]
      nofun
    obtain ⟨source, mem, rfl⟩ := mem_map.mp own
    refine Eq.symm ((language.regularRow_eq_overlay row (mem_map_of_mem inItems)).trans ?_)
    refine (language.overlay_of_mem unique mem row).trans ?_
    exact congrArg (language.evaluate · row) (Option.some.inj expression)
  case h_2 unmatched =>
    split at found
    case isFalse lost => cases found
    case isTrue available =>
      obtain rfl := Option.some.inj found
      refine language.evaluate_congr fun name mem => ?_
      rw [language.regularRow_eq_overlay row (available mem)]
      refine (language.overlay_of_keeps unique (kept rfl ?_ name mem) row).symm
      intro other inItems same
      have present : (⟨other.aliasName, some other.expression⟩ : ProjectionItem Term) ∈
          language.regularItems columns clause.items clause.regular :=
        mem_foldl_append_of_mem (mem_map_of_mem inItems)
      exact find?_eq_none.mp unmatched _ present (decide_eq_true (congrArg some same))

theorem Language.rows_regular {ordering : List (SortItem Term)} {rows : List (Row Value)}
    {planned : List (Expression Term)} {filtered : Plan Term Value} (plain : language.plain clause)
    (inScope : language.InScope clause columns) (sorted : rows.Pairwise (language.inOrder ordering))
    (untangled : language.Untangled clause columns ordering rows)
    (isPlanned : ∀ predicate ∈ clause.conjuncts, predicate ∈ planned ↔ language.dependencies predicate ⊆ columns)
    (filteredColumns : filtered.columns = columns) (filteredOrdering : language.orderingTrait filtered = ordering)
    (filteredRows : language.rows filtered = rows.filter (language.passes clause.conjuncts [] columns)) :
    ∃ result, language.applyProjectionTail (language.horizonPlan filtered clause.regular) planned clause.regular
        clause.aliases = .ok result ∧
      language.rows result = language.countedLast clause (rows.map (language.overlay clause.items)) := by
  have planRows : language.rows (language.horizonPlan filtered clause.regular) =
      (rows.filter (language.passes clause.conjuncts [] columns)).map (language.regularRow columns clause) := by
    simp only [horizonPlan, Language.rows, filteredRows, filteredColumns]
    rfl
  have planColumns : (language.horizonPlan filtered clause.regular).columns =
      (language.regularItems columns clause.items clause.regular).map (·.aliasName) := by
    simp only [horizonPlan, Plan.columns, filteredColumns]
  have planOrdering : language.orderingTrait (language.horizonPlan filtered clause.regular) =
      language.projectOrdering (language.regularItems columns clause.items clause.regular) ordering := by
    simp only [horizonPlan, orderingTrait, filteredOrdering, filteredColumns]
  refine language.applyProjectionTail_of_elements id (language.regularRow columns clause)
    (language.overlay clause.items) isPlanned planRows ?_ ?_ ?_ ?_ ?_ ?_ (untangled.unhidden plain)
  · intro row _ name absent
    exact language.rowOf_of_notMem (by rw [language.cells_names]; exact planColumns ▸ absent)
  · intro satisfied
    rw [planOrdering] at satisfied
    have leads : clause.orderBy <+: _ := isPrefixOf_iff_prefix.mp satisfied
    rw [planRows, pairwise_map]
    refine (sorted.filter _).imp fun {first second} before => ?_
    refine language.inOrder_projectOrdering leads (fun item inOrdering projected inOrderBy found => ?_) before
    have key := language.evaluate_projectOrderItem inScope.unique found fun same unmatched =>
      untangled.ordered plain item (same ▸ inOrderBy) inOrdering unmatched
    have descends : item.descending = projected.descending := language.descending_projectOrderItem found
    simp only [compareItem, key, descends]
  · intro item mem name used
    rw [planColumns, language.mem_regularItems]
    have known := inScope.orderBy item mem used
    rw [if_pos plain, mem_append] at known
    rcases known with input | projected
    · exact .inr ⟨input, .inl ⟨item, mem, used⟩⟩
    · exact .inl projected
  · intro predicate mem _ name used
    rw [planColumns, language.mem_regularItems]
    rcases mem_append.mp (inScope.conjuncts mem used) with input | projected
    · exact .inr ⟨input, .inr ⟨predicate, mem, used⟩⟩
    · exact .inl projected
  · intro name mem
    rw [planColumns, language.mem_regularItems]
    exact .inl mem
  · intro row _ name mem
    exact language.regularRow_eq_overlay row (planColumns ▸ mem)

end Regular

/-! ## DISTINCT and aggregates -/

section Grouped

variable [DecidableEq Term] {language : Language Term Value} {clause : WithClause Term} {columns : List String}
  {ordering : List (SortItem Term)} {rows : List (Row Value)}

theorem Language.passes_congr (agree : ∀ predicate ∈ language.pushed clause columns,
      language.holds predicate first = language.holds predicate second) :
    language.passes clause.conjuncts [] columns first = language.passes clause.conjuncts [] columns second := by
  rw [Bool.eq_iff_iff, passes, passes, all_eq_true, all_eq_true]
  refine forall₂_congr fun predicate mem => ?_
  by_cases available : language.dependencies predicate ⊆ columns
  · simp [agree predicate (mem_filter.mpr ⟨mem, decide_eq_true available⟩)]
  · simp [available]

omit [DecidableEq Term] in
theorem Language.sameGroup_iff {items : List (AliasedItem Term)} :
    language.sameGroup (logicalProjectionItems items) first second ↔ ∀ item ∈ items,
      language.same (language.evaluate item.expression first) (language.evaluate item.expression second) := by
  simp [sameGroup, sameCells, cells, logicalProjectionItems, zip_map', all_map]

theorem Language.rows_grouped {plan : Plan Term Value} {planned : List (Expression Term)} {horizon : Horizon Term}
    (grouped : language.plain clause = false) (inScope : language.InScope clause columns)
    (untangled : language.Untangled clause columns ordering rows)
    (isPlanned : ∀ predicate ∈ clause.conjuncts, predicate ∈ planned ↔ language.dependencies predicate ⊆ columns)
    (names : ∀ name, name ∈ plan.columns ↔ name ∈ clause.aliases) (unordered : language.orderingTrait plan = [])
    (closed : ∀ row ∈ language.projected clause rows, ∀ name, name ∉ clause.aliases → row name = language.null)
    (planRows : language.rows plan =
      (language.projected clause rows).filter (language.passes clause.conjuncts [] columns)) :
    ∃ result, language.applyProjectionTail plan planned
        ⟨horizon, clause.orderBy, clause.skip, clause.limit, clause.conjuncts⟩ clause.aliases = .ok result ∧
      language.rows result = language.countedLast clause (language.projected clause rows) := by
  have identity : ∀ found : List (Row Value), found.map id = found := map_id
  rw [← identity (language.projected clause rows)]
  rw [← identity (filter _ _)] at planRows
  refine language.applyProjectionTail_of_elements id id id isPlanned planRows ?_ ?_ ?_ ?_ ?_ ?_ ?_
  · intro row mem name absent
    exact closed row mem name (mt (names name).mpr absent)
  · intro satisfied
    rw [unordered] at satisfied
    have begins := isPrefixOf_iff_prefix.mp satisfied
    rw [prefix_nil.mp begins]
    exact pairwise_of_forall fun _ _ => rfl
  · intro item mem name used
    have known := inScope.orderBy item mem used
    rw [if_neg (by rw [grouped]; nofun)] at known
    exact (names name).mpr known
  · intro predicate mem _ name used
    exact (names name).mpr (untangled.projected grouped predicate mem used)
  · exact fun name mem => (names name).mpr mem
  · exact fun _ _ _ _ => rfl
  · exact fun _ _ _ _ => rfl

theorem Language.Untangled.passes_iff (untangled : language.Untangled clause columns ordering rows)
    (grouped : language.plain clause = false) {row output : Row Value}
    (values : ∀ item ∈ language.groupingItems clause, output item.aliasName = language.evaluate item.expression row) :
    language.passes clause.conjuncts [] columns output = language.passes clause.conjuncts [] columns row := by
  refine language.passes_congr fun predicate mem => language.holds_congr fun name used => ?_
  have projected := untangled.projected grouped predicate (mem_of_mem_filter mem) used
  exact values _ (mem_filter.mpr ⟨untangled.kept grouped predicate mem name used projected, rfl⟩)

theorem Language.Untangled.uniform_passes (untangled : language.Untangled clause columns ordering rows)
    (grouped : language.plain clause = false) : ∀ first ∈ rows, ∀ second ∈ rows,
      language.sameGroup (logicalProjectionItems (language.groupingItems clause)) first second →
      language.passes clause.conjuncts [] columns first = language.passes clause.conjuncts [] columns second :=
  fun first one second two together => language.passes_congr (untangled.uniform grouped first one second two together)

omit [DecidableEq Term] in
theorem Language.sameOn_rowOf (unique : clause.aliases.Nodup) (first second : Row Value) :
    language.sameOn clause.aliases (language.rowOf (language.cells (logicalProjectionItems clause.items) first))
        (language.rowOf (language.cells (logicalProjectionItems clause.items) second)) =
      language.sameGroup (logicalProjectionItems clause.items) first second := by
  rw [Bool.eq_iff_iff, language.sameGroup_iff, sameOn, all_eq_true, WithClause.aliases, forall_mem_map]
  refine forall₂_congr fun item mem => ?_
  rw [language.rowOf_cells unique mem, language.rowOf_cells unique mem]

omit [DecidableEq Term] in
theorem Language.projected_distinct (flat : (language.aggregationItems clause).isEmpty)
    (distinct : clause.distinct) (unique : clause.aliases.Nodup) (rows : List (Row Value)) :
    language.projected clause rows = (rows.eraseDupsBy (language.sameGroup (logicalProjectionItems clause.items))).map
      fun row => language.rowOf (language.cells (logicalProjectionItems clause.items) row) := by
  rw [projected, if_pos flat, if_pos distinct, eraseDupsBy_map]
  simp only [language.sameOn_rowOf unique]

variable {filtered : Plan Term Value}

theorem Language.rows_distinct (flat : (language.aggregationItems clause).isEmpty)
    (distinct : clause.distinct) (unique : clause.aliases.Nodup)
    (untangled : language.Untangled clause columns ordering rows)
    (filteredRows : language.rows filtered = rows.filter (language.passes clause.conjuncts [] columns)) :
    language.rows (.distinct filtered (logicalProjectionItems clause.items)) =
      (language.projected clause rows).filter (language.passes clause.conjuncts [] columns) := by
  have grouped : language.plain clause = false := by simp [plain, distinct]
  have items : language.groupingItems clause = clause.items := by
    refine filter_eq_self.mpr fun item mem => ?_
    have aggregates := filter_eq_nil_iff.mp (isEmpty_iff.mp flat) item mem
    simpa using aggregates
  have uniform := untangled.uniform_passes grouped
  rw [items] at uniform
  rw [language.projected_distinct flat distinct unique, Language.rows, filteredRows, eraseDupsBy_map, map_map,
    filter_map]
  change (eraseDupsBy (language.sameGroup (logicalProjectionItems clause.items)) _).map _ = _
  rw [← filter_eraseDupsBy uniform]
  refine congrArg (map _) (filter_congr fun row _ => ?_)
  refine (untangled.passes_iff grouped fun item mem => ?_).symm
  exact language.rowOf_cells unique (items ▸ mem) row

omit [DecidableEq Term] in
theorem Language.groupRow_grouping (unique : clause.aliases.Nodup) {item : AliasedItem Term}
    (mem : item ∈ language.groupingItems clause) (aggregations : List (ProjectionItem Term))
    (group : Row Value × List (Row Value)) :
    language.groupRow (logicalProjectionItems (language.groupingItems clause)) aggregations group item.aliasName =
      language.evaluate item.expression group.1 := by
  have own : item.aliasName ∈ (logicalProjectionItems (language.groupingItems clause)).map (·.aliasName) := by
    rw [aliases_logicalProjectionItems]
    exact mem_map_of_mem mem
  rw [groupRow, language.rowOf_append, language.cells_names, if_pos own]
  exact language.rowOf_cells (unique.sublist (filter_sublist.map _)) mem group.1

omit [DecidableEq Term] in
theorem Language.mem_grouping_append_aggregation {name : String} :
    name ∈ (logicalProjectionItems (language.groupingItems clause) ++
        logicalProjectionItems (language.aggregationItems clause)).map (·.aliasName) ↔ name ∈ clause.aliases := by
  rw [map_append, aliases_logicalProjectionItems, aliases_logicalProjectionItems, mem_append]
  simp only [groupingItems, aggregationItems, WithClause.aliases, mem_map, mem_filter]
  grind

omit [DecidableEq Term] in
theorem Language.projected_aggregating (aggregating : (language.aggregationItems clause).isEmpty = false)
    (unique : clause.aliases.Nodup) (rows : List (Row Value)) :
    language.projected clause rows = language.aggregate (logicalProjectionItems (language.groupingItems clause))
      (logicalProjectionItems (language.aggregationItems clause)) rows := by
  rw [projected, if_neg (by rw [aggregating]; nofun)]
  split
  case isFalse all => rfl
  case isTrue distinct =>
    refine eraseDupsBy_eq_self ?_
    unfold aggregate
    split
    case isTrue single => exact pairwise_singleton _ _
    case isFalse several =>
      rw [groupsBy, map_map, pairwise_map]
      refine (pairwise_eraseDupsBy rows).imp fun {first second} apart => ?_
      refine Bool.eq_false_iff.mpr fun together => Bool.eq_false_iff.mp apart (language.sameGroup_iff.mpr ?_)
      intro item mem
      have named : item.aliasName ∈ clause.aliases := mem_map_of_mem (mem_of_mem_filter mem)
      have alike := all_eq_true.mp together item.aliasName named
      rw [Function.comp_apply, Function.comp_apply, language.groupRow_grouping unique mem,
        language.groupRow_grouping unique mem] at alike
      exact alike

omit [DecidableEq Term] in
theorem Language.aggregate_closed {grouping aggregations : List (ProjectionItem Term)} {rows : List (Row Value)}
    {row : Row Value} (mem : row ∈ language.aggregate grouping aggregations rows) {name : String}
    (absent : name ∉ (grouping ++ aggregations).map (·.aliasName)) : row name = language.null := by
  have summarized : ∀ group, (language.summaries aggregations group).map Prod.fst = aggregations.map (·.aliasName) := by
    intro group
    simp [summaries]
  rw [map_append, mem_append, not_or] at absent
  unfold aggregate at mem
  split at mem
  · obtain rfl := mem_singleton.mp mem
    exact language.rowOf_of_notMem (by rw [summarized]; exact absent.2)
  · obtain ⟨group, -, rfl⟩ := mem_map.mp mem
    rw [groupRow, language.rowOf_append, language.cells_names, if_neg absent.1]
    exact language.rowOf_of_notMem (by rw [summarized]; exact absent.2)

theorem Language.Untangled.passes_ungrouped (untangled : language.Untangled clause columns ordering rows)
    (grouped : language.plain clause = false) (aggregating : language.aggregationItems clause ≠ [])
    (ungrouped : language.groupingItems clause = []) (row : Row Value) :
    language.passes clause.conjuncts [] columns row := by
  have constant : language.passes clause.conjuncts [] columns row =
      language.passes clause.conjuncts [] columns fun _ => language.null := by
    refine untangled.passes_iff grouped fun item mem => ?_
    rw [ungrouped] at mem
    cases mem
  rw [constant]
  refine all_eq_true.mpr fun predicate mem => ?_
  by_cases available : language.dependencies predicate ⊆ columns
  · simp [untangled.ungrouped aggregating ungrouped predicate (mem_filter.mpr ⟨mem, decide_eq_true available⟩)]
  · simp [available]

theorem Language.rows_aggregating
    (aggregating : (language.aggregationItems clause).isEmpty = false) (unique : clause.aliases.Nodup)
    (untangled : language.Untangled clause columns ordering rows)
    (filteredRows : language.rows filtered = rows.filter (language.passes clause.conjuncts [] columns)) :
    language.rows (.aggregation filtered (logicalProjectionItems (language.groupingItems clause))
        (logicalProjectionItems (language.aggregationItems clause))) =
      (language.projected clause rows).filter (language.passes clause.conjuncts [] columns) := by
  have grouped : language.plain clause = false := by simp [plain, aggregating]
  rw [language.projected_aggregating aggregating unique, Language.rows, filteredRows]
  by_cases ungrouped : language.groupingItems clause = []
  · have all := untangled.passes_ungrouped grouped (by simpa using aggregating) ungrouped
    rw [filter_eq_self.mpr fun row _ => all row, filter_eq_self.mpr fun row _ => all row]
  · have several : (logicalProjectionItems (language.groupingItems clause)).isEmpty = false := by
      simpa [logicalProjectionItems] using ungrouped
    simp only [aggregate, several, Bool.false_and, Bool.false_eq_true, if_false]
    rw [← filter_groupsBy (untangled.uniform_passes grouped), filter_map]
    refine congrArg (map _) (filter_congr fun group _ => ?_)
    exact (untangled.passes_iff grouped fun item mem => language.groupRow_grouping unique mem _ group).symm

end Grouped

/-! ## The plan of a clause -/

section Main

variable [DecidableEq Term] {language : Language Term Value} {clause : WithClause Term} {columns : List String}
  {ordering : List (SortItem Term)} {rows : List (Row Value)}

end Main

/-! A language of comparisons with integers, in which clauses can be run. -/

inductive Comparison where
  | greater (name : String) (bound : Int)
  | count
  deriving DecidableEq

/-- Values are integers, with 0 and 1 for false and true, or null, which sorts last. -/
def comparisons : Language Comparison (Option Int) where
  null := none
  names
    | .greater name _ => [name]
    | .count => []
  value
    | .greater name bound, row => (row name).map fun value => if value > bound then 1 else 0
    | .count, _ => none
  value_congr
    | .greater name _, _, _, agree => by simp only [agree name mem_cons_self]
    | .count, _, _, _ => rfl
  aggregates
    | .greater _ _ => false
    | .count => true
  summary _ rows := some rows.length
  isTrue value := value == some 1
  conjunction left right :=
    if left == some 1 && right == some 1 then some 1 else if left == some 0 || right == some 0 then some 0 else none
  isTrue_conjunction left right := by
    cases both : (left == some 1 && right == some 1) <;> simp only [Bool.false_eq_true, if_true, if_false]
    · split <;> rfl
    · rfl
  same left right := left == right
  compare left right := (compare left.isNone right.isNone).then (compare (left.getD 0) (right.getD 0))
  compare_transCmp := inferInstanceAs (Std.TransCmp (compareLex (compareOn Option.isNone) (compareOn (Option.getD · 0))))

/-- `WITH a AS a, b AS c ORDER BY c DESC LIMIT 1 WHERE a > 1 AND c > 0`. -/
def orderedClause : WithClause Comparison where
  distinct := false
  items := [⟨"a", .var "a"⟩, ⟨"c", .var "b"⟩]
  orderBy := [⟨.var "c", true⟩]
  skip := none
  limit := some 1
  condition := some (.and (.term (.greater "a" 1)) (.term (.greater "c" 0)))

def numbered (a b : Int) : Row (Option Int) := comparisons.rowOf [("a", some a), ("b", some b)]

/-- `WITH a AS a LIMIT 1 WHERE a > 1`. -/
def limitedClause : WithClause Comparison where
  distinct := false
  items := [⟨"a", .var "a"⟩]
  orderBy := []
  skip := none
  limit := some 1
  condition := some (.term (.greater "a" 1))

end RocksGraph.Query
