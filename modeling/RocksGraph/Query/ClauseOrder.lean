import RocksGraph.Query.Pipelining

/-! Updating clauses one after the other and updating clauses pipelined row by row.

Between two operators that drain their source, the rows take turns: each passes
all clauses before the next one is pulled. This agrees with the order of the
clauses where what a row changes in one clause is not what an earlier row touches
in a later one, and the other way round. -/

set_option autoImplicit false

namespace RocksGraph.Updates

open Foundation List Action

def CreateCommand.bind (row : Row) : CreateCommand → Row
  | .node name .. => row.set name (.node (.created name row.position))
  | .relationship name .. => row.set name (.relationship (.created name row.position))

def Write.bind (row : Row) : Write → Row
  | .create command => command.bind row
  | .set _ | .remove _ => row

variable (writes : List Write)

def bindAll (row : Row) : Row := writes.foldl Write.bind row

def writesFootprint : List Write → Row → Footprint Location
  | [], _ => .nothing
  | write :: rest, row => (write.footprint row).join (writesFootprint rest (write.bind row))

section Consume

variable {Output : Type} (projection : Reader Output)

structure Buffer (Output : Type) where
  doomed : Doomed
  outputs : List Output

def Buffer.ofDoomed (doomed : Doomed) : Buffer Output := ⟨doomed, []⟩

def Buffer.ofOutputs (outputs : List Output) : Buffer Output := ⟨⟨[], [], []⟩, outputs⟩

def Buffer.empty : Buffer Output := .ofOutputs []

def consume : List UpdatingClause → Buffer Output → Row → Run (Buffer Output)
  | [], buffer, row => return { buffer with outputs := ← project projection buffer.outputs row }
  | clause :: rest, buffer, row =>
    match clause.writes, clause with
    | some writes, _ => do consume rest buffer (← executeAll writes row)
    | none, .delete _ expressions => return { buffer with doomed := ← buffer.doomed.collect expressions row }
    | none, _ => return { buffer with doomed := { buffer.doomed with rows := buffer.doomed.rows ++ [row] } }

def finish : List UpdatingClause → Buffer Output → Run (List Output)
  | [], buffer => return buffer.outputs
  | clause :: rest, buffer =>
    match clause.writes, clause with
    | some _, _ => finish rest buffer
    | none, .delete detach _ => do
      buffer.doomed.delete detach
      finish rest (← buffer.doomed.rows.foldlM (consume projection rest) Buffer.empty)
    | none, clause => do
      finish rest (← (← clause.run buffer.doomed.rows).foldlM (consume projection rest) Buffer.empty)

def flow (clauses : List UpdatingClause) (rows : List Row) : Run (List Output) := do
  finish projection clauses (← rows.foldlM (consume projection clauses) Buffer.empty)

def restFootprint : List UpdatingClause → Row → Footprint Location
  | [], row => .ofReads (projection.reads row)
  | clause :: rest, row =>
    match clause.writes, clause with
    | some writes, _ => (writesFootprint writes row).join (restFootprint rest (bindAll writes row))
    | none, .delete _ expressions => .ofReads {location | ∃ expression ∈ expressions, location ∈ expression.reads row}
    | none, _ => .nothing

/-- The writes of a row from here on, up to the clause that drains its source. -/
def onward : List UpdatingClause → Row → Run Row
  | [], row => return row
  | clause :: rest, row =>
    match clause.writes with
    | some writes => do onward rest (← executeAll writes row)
    | none => return row

/-- In this state, a row that goes on and a row that is written behind it change nothing that the other one touches. -/
def Unaffected (rest : List UpdatingClause) (writes : List Write) (earlier later : Row) (graph : Graph) : Prop :=
  (writesFootprint writes later).SparedBy Graph.read (onward rest earlier) graph ∧
    (restFootprint projection rest earlier).SparedBy Graph.read (executeAll writes later) graph

/-- In each clause that streams, every row is unaffected by the rows behind it. It meets them in the states that they
and it have left in this clause, and the rows before it in all clauses up to the one that drains its source. -/
def Undisturbed : List UpdatingClause → List Row → Graph → Prop
  | [], _, _ => True
  | clause :: rest, rows, graph =>
    (∀ writes ∈ clause.writes, Along (fun row => executeAll writes row >>= onward rest)
      (fun row behind graph => ∀ earlier next, (executeAll writes row).Gives graph earlier next →
        Along (executeAll writes) (fun later _ => Unaffected projection rest writes earlier later) behind next)
      rows graph) ∧
    ∀ outputs next, (clause.run rows).Gives graph outputs next → Undisturbed rest outputs next

end Consume

theorem Write.execute_value (write : Write) (row : Row) (first : Graph) (value : Row) (last : Graph)
    (gives : (write.execute row).Gives first value last) : value = write.bind row := by
  cases write with
  | create command =>
    cases command with
    | node name labels properties =>
      simp only [execute, CreateCommand.execute, gives_bind] at gives
      obtain ⟨_, _, _, _, _, _, rfl, _⟩ := gives
      rfl
    | relationship name type left right properties =>
      simp only [execute, CreateCommand.execute, gives_bind] at gives
      obtain ⟨startNode, _, _, endNode, _, _, done⟩ := gives
      split at done
      · simp only [gives_bind] at done
        obtain ⟨_, _, _, _, _, _, _, _, _, _, _, _, rfl, _⟩ := done
        rfl
      · exact (gives_throw done).elim
  | set | remove =>
    obtain ⟨_, _, _, done⟩ := gives_bind.mp gives
    exact (gives_pure.mp done).1

theorem executeAll_value (row : Row) (first : Graph) (value : Row) (last : Graph)
    (gives : (executeAll writes row).Gives first value last) : value = bindAll writes row := by
  induction writes generalizing row first with
  | nil => exact (gives_pure.mp gives).1
  | cons write rest ih =>
    obtain ⟨middle, state, atWrite, atRest⟩ := gives_bind.mp gives
    obtain rfl := write.execute_value row first middle state atWrite
    exact ih _ state atRest

theorem executeAll_confined (row : Row) :
    Confined Graph.read (writesFootprint writes row) (executeAll writes row) := by
  induction writes generalizing row with
  | nil => exact .pure row
  | cons write rest ih =>
    refine (write.confined row).bind (write.execute_value row) fun value known => ?_
    subst known
    exact ih _

theorem Doomed.collect_confined (expressions : List Expression) (doomed : Doomed) (row : Row) :
    Confined Graph.read (.ofReads {location | ∃ expression ∈ expressions, location ∈ expression.reads row})
      (doomed.collect expressions row) := by
  refine .foldlM fun doomed expression mem => ?_
  have here : Confined Graph.read
      (.ofReads {location | ∃ expression ∈ expressions, location ∈ expression.reads row}) (expression.evaluate row) :=
    (expression.confined row).mono (fun location isRead => ⟨expression, mem, isRead⟩) (Set.empty_subset _)
  refine here.andThen fun value => ?_
  unfold add
  split
  · exact .pure _
  · exact .pure _
  · exact .pure _
  · exact .pure _
  · exact .throw _

section Touch

variable {Output : Type} (projection : Reader Output)

theorem consume_confined (clauses : List UpdatingClause) (buffer : Buffer Output) (row : Row) :
    Confined Graph.read (restFootprint projection clauses row) (consume projection clauses buffer row) := by
  induction clauses generalizing row with
  | nil =>
    refine Confined.andThen ?_ fun outputs => .pure _
    exact (projection.confined row).andThen fun output => .pure _
  | cons clause rest ih =>
    unfold restFootprint consume
    split
    next writes streams =>
      refine (executeAll_confined writes row).bind (executeAll_value writes row) fun value known => ?_
      subst known
      exact ih _
    · exact (Doomed.collect_confined _ _ row).andThen fun doomed => .pure _
    · exact .pure _

theorem Doomed.collect_state {expressions : List Expression} {doomed value : Doomed} {row : Row} {first last : Graph}
    (gives : (doomed.collect expressions row).Gives first value last) : last = first :=
  Graph.ext_read fun location => (collect_confined expressions doomed row).frame first value last gives location id

/-- What a row collects does not matter for what it writes. -/
theorem onward_of_consume {clauses : List UpdatingClause} {buffer value : Buffer Output} {row : Row} {first last : Graph}
    (gives : (consume projection clauses buffer row).Gives first value last) :
    ∃ final, (onward clauses row).Gives first final last := by
  induction clauses generalizing row first with
  | nil =>
    obtain ⟨outputs, middle, projected, done⟩ := gives_bind.mp gives
    obtain ⟨output, _, read, pushed⟩ := gives_bind.mp projected
    obtain ⟨-, rfl⟩ := gives_pure.mp done
    obtain ⟨-, rfl⟩ := gives_pure.mp pushed
    obtain ⟨-, rfl⟩ := gives_inspect.mp read
    exact ⟨row, gives_pure.mpr ⟨rfl, rfl⟩⟩
  | cons clause rest ih =>
    cases clause with
    | create | set | remove =>
      obtain ⟨written, middle, atWrites, atRest⟩ := gives_bind.mp gives
      obtain ⟨final, further⟩ := ih atRest
      exact ⟨final, gives_bind.mpr ⟨written, middle, atWrites, further⟩⟩
    | delete detach expressions =>
      obtain ⟨doomed, middle, collected, done⟩ := gives_bind.mp gives
      obtain ⟨-, rfl⟩ := gives_pure.mp done
      obtain rfl := Doomed.collect_state collected
      exact ⟨row, gives_pure.mpr ⟨rfl, rfl⟩⟩
    | merge pattern =>
      obtain ⟨-, rfl⟩ := gives_pure.mp gives
      exact ⟨row, gives_pure.mpr ⟨rfl, rfl⟩⟩

theorem Unaffected.commutesAt {rest : List UpdatingClause} {writes : List Write} {earlier later : Row} {graph : Graph}
    (unaffected : Unaffected projection rest writes earlier later graph) (buffer : Buffer Output) :
    CommutesAt graph (consume projection rest buffer earlier) (executeAll writes later) := by
  refine Confined.commutesAt (fun _ _ => Graph.ext_read) (consume_confined projection rest buffer earlier)
    (executeAll_confined writes later) (fun value last gives => ?_) unaffected.2
  obtain ⟨final, further⟩ := onward_of_consume projection gives
  exact unaffected.1 final last further

end Touch

variable {clause : UpdatingClause} {writes : List Write}

theorem UpdatingClause.run_writes (streams : clause.writes = some writes)
    (rows : List Row) : clause.run rows = rows.mapM (executeAll writes) := by
  cases clause with
  | create | set | remove => cases streams; rfl
  | delete | merge => cases streams

section Blocks

variable {Output : Type} {projection : Reader Output}

theorem consume_writes (streams : clause.writes = some writes)
    (rest : List UpdatingClause) :
    consume projection (clause :: rest) =
      fun buffer row => executeAll writes row >>= consume projection rest buffer := by
  cases clause with
  | create | set | remove => cases streams; rfl
  | delete | merge => cases streams

def Buffer.ofRows (rows : List Row) : Buffer Output := .ofDoomed ⟨rows, [], []⟩

theorem finish_writes (streams : clause.writes = some writes)
    (rest : List UpdatingClause) : finish projection (clause :: rest) = finish projection rest := by
  cases clause with
  | create | set | remove => rfl
  | delete | merge => cases streams

theorem foldlM_push (rows buffer : List Row) :
    rows.foldlM (fun buffer row => (pure (buffer ++ [row]) : Run (List Row))) buffer = pure (buffer ++ rows) := by
  induction rows generalizing buffer with
  | nil => rw [foldlM_nil, append_nil]
  | cons row rest ih => rw [foldlM_cons, pure_bind, ih, append_assoc, singleton_append]

open Buffer

theorem flow_nil (rows : List Row) : flow projection [] rows = clauseByClause projection [] rows := by
  have collected : ofOutputs <$> rows.foldlM (project projection) [] =
      rows.foldlM (consume projection []) Buffer.empty :=
    map_foldlM ofOutputs (fun _ _ => rfl) rows []
  rw [flow, ← collected, bind_map_left]
  exact bind_pure _

theorem flow_delete (detach : Bool) (expressions : List Expression) (rest : List UpdatingClause) (rows : List Row) :
    flow projection (.delete detach expressions :: rest) rows =
      (UpdatingClause.delete detach expressions).run rows >>= flow projection rest := by
  have collected : ofDoomed <$> rows.foldlM (Doomed.collect expressions) ⟨[], [], []⟩ =
      rows.foldlM (consume projection (.delete detach expressions :: rest)) Buffer.empty :=
    map_foldlM ofDoomed (fun _ _ => rfl) rows _
  rw [flow, ← collected, bind_map_left, UpdatingClause.run]
  simp only [bind_assoc]
  rfl

theorem flow_merge (pattern : Merge) (rest : List UpdatingClause) (rows : List Row) :
    flow projection (.merge pattern :: rest) rows =
      (UpdatingClause.merge pattern).run rows >>= flow projection rest := by
  have collected : ofRows <$> rows.foldlM (fun buffer row => (pure (buffer ++ [row]) : Run (List Row))) [] =
      rows.foldlM (consume projection (.merge pattern :: rest)) Buffer.empty :=
    map_foldlM ofRows (fun _ _ => rfl) rows _
  rw [flow, ← collected, foldlM_push]
  rfl

theorem flow_writes (streams : clause.writes = some writes)
    (rest : List UpdatingClause) (rows : List Row) {graph : Graph}
    (unaffected : Along (fun row => executeAll writes row >>= onward rest)
      (fun row behind graph => ∀ earlier next, (executeAll writes row).Gives graph earlier next →
        Along (executeAll writes) (fun later _ => Unaffected projection rest writes earlier later) behind next) rows graph) :
    AgreesAt graph (flow projection (clause :: rest) rows) (clause.run rows >>= flow projection rest) := by
  have fission : AgreesAt graph
      (rows.foldlM (fun buffer row => executeAll writes row >>= consume projection rest buffer) Buffer.empty)
      (rows.mapM (executeAll writes) >>= fun images => images.foldlM (consume projection rest) Buffer.empty) := by
    have follows : ∀ (buffer : Buffer Output) (row : Row) (first : Graph) (next : Buffer Output) (last : Graph),
        (consume projection rest buffer row).Gives first next last → ∃ final, (onward rest row).Gives first final last :=
      fun _ _ _ _ _ => onward_of_consume projection
    refine foldlM_fission follows (unaffected.imp fun each earlier next gives => ?_) Buffer.empty
    exact (each earlier next gives).imp fun apart => apart.commutesAt projection
  have bound := fission.bind (finish projection rest)
  rw [bind_assoc] at bound
  rw [clause.run_writes streams, flow, consume_writes streams, finish_writes streams]
  exact bound

theorem flow_gives_iff {clauses : List UpdatingClause} {rows : List Row} {graph : Graph}
    (undisturbed : Undisturbed projection clauses rows graph) (outputs : List Output) (last : Graph) :
    (flow projection clauses rows).Gives graph outputs last ↔
      (clauseByClause projection clauses rows).Gives graph outputs last := by
  induction clauses generalizing rows graph with
  | nil => rw [flow_nil]
  | cons clause rest ih =>
    obtain ⟨unaffected, later⟩ := undisturbed
    have step : AgreesAt graph (flow projection (clause :: rest) rows) (clause.run rows >>= flow projection rest) := by
      cases streams : clause.writes with
      | some writes => exact flow_writes streams rest rows (unaffected writes streams)
      | none =>
        cases clause with
        | create | set | remove => cases streams
        | delete detach expressions => rw [flow_delete]; exact fun _ _ => Iff.rfl
        | merge pattern => rw [flow_merge]; exact fun _ _ => Iff.rfl
    rw [step outputs last, clauseByClause, gives_bind, gives_bind]
    refine exists_congr fun middle => exists_congr fun next => and_congr_right fun atClause => ?_
    exact ih (later middle next atClause)

end Blocks

/-! ## Operators go block by block -/

variable (operator : Operator)

namespace Operator

variable {Total : Type}

-- Makes its equations once, here.
attribute [grind =] fold

theorem map_fold {View : Type} {body : Total → Row → Run Total}
    {viewed : View → Row → Run View} (view : Total → View)
    (each : ∀ total row, view <$> body total row = viewed (view total) row) (total : Total) :
    view <$> operator.fold body total = operator.fold viewed (view total) := by
  induction operator generalizing body viewed total with
  | rows table => exact map_foldlM view each table total
  | write data source ih =>
    refine ih (fun total row => ?_) total
    rw [map_bind]
    exact bind_congr fun output => each total output
  | barrier | merge =>
    rw [fold, map_bind]
    exact bind_congr fun buffer => map_foldlM view each buffer total
  | delete detach expressions source =>
    rw [fold, map_bind]
    refine bind_congr fun doomed => ?_
    rw [map_bind]
    exact bind_congr fun _ => map_foldlM view each doomed.rows total

def collect : Run (List Row) :=
  operator.fold (fun buffer row => return buffer ++ [row]) []

/-- All writes below the operator happen before it hands on its first row. -/
def Drained : Prop :=
  ∀ (Total : Type) (body : Total → Row → Run Total) (total : Total),
    operator.fold body total = operator.collect >>= fun rows => rows.foldlM body total

theorem rows_drained (table : List Row) : (rows table).Drained := by
  intro Total body total
  rw [collect, fold, fold, foldlM_push, pure_bind, nil_append]

theorem barrier_drained (source : Operator) : (barrier source).Drained := by
  intro Total body total
  simp only [collect, fold, bind_assoc]
  exact bind_congr fun buffer => by rw [foldlM_push, pure_bind, nil_append]

theorem merge_drained (pattern : Merge) (source : Operator) : (merge pattern source).Drained := by
  intro Total body total
  simp only [collect, fold, bind_assoc]
  exact bind_congr fun buffer => by rw [foldlM_push, pure_bind, nil_append]

theorem Drained.fold_barrier {operator : Operator} (drained : operator.Drained)
    (body : Total → Row → Run Total) (total : Total) :
    (barrier operator).fold body total = operator.fold body total := by
  rw [drained Total body total]
  rfl

theorem fold_applyWrites (source : Operator)
    (body : Total → Row → Run Total) (total : Total) :
    (applyWrites source writes).fold body total =
      source.fold (fun total row => executeAll writes row >>= body total) total := by
  induction writes generalizing source with
  | nil => simp [applyWrites, executeAll]
  | cons write rest ih =>
    rw [applyWrites, foldl_cons, ← applyWrites, ih, fold]
    simp [executeAll]

end Operator

section Carry

variable {Output : Type} (projection : Reader Output)

def carry (operator : Operator) (clauses : List UpdatingClause) : Run (List Output) := do
  finish projection clauses (← operator.fold (consume projection clauses) Buffer.empty)

variable {projection}

theorem carry_barrier {operator : Operator} (drained : operator.Drained) (clauses : List UpdatingClause) :
    carry projection (.barrier operator) clauses = carry projection operator clauses := by
  rw [carry, drained.fold_barrier]
  rfl

theorem carry_writes (streams : clause.writes = some writes)
    (operator : Operator) (rest : List UpdatingClause) :
    carry projection (applyMutatingPattern operator clause) rest = carry projection operator (clause :: rest) := by
  have planned : applyMutatingPattern operator clause = applyWrites operator writes := by
    cases clause with
    | create | set | remove => cases streams; rfl
    | delete | merge => cases streams
  rw [carry, carry, planned, Operator.fold_applyWrites, consume_writes streams,
    finish_writes streams]

theorem carry_delete (detach : Bool) (expressions : List Expression) (operator : Operator) (rest : List UpdatingClause) :
    carry projection (.delete detach expressions operator) rest =
      carry projection operator (.delete detach expressions :: rest) := by
  have collected : Buffer.ofDoomed <$> operator.fold (Doomed.collect expressions) ⟨[], [], []⟩ =
      operator.fold (consume projection (.delete detach expressions :: rest)) Buffer.empty :=
    operator.map_fold Buffer.ofDoomed (fun _ _ => rfl) _
  rw [carry, carry, ← collected, bind_map_left, Operator.fold]
  simp only [bind_assoc]
  rfl

theorem carry_merge (pattern : Merge) (operator : Operator) (rest : List UpdatingClause) :
    carry projection (.merge pattern (.barrier operator)) rest = carry projection operator (.merge pattern :: rest) := by
  have collected : Buffer.ofRows <$> operator.collect =
      operator.fold (consume projection (.merge pattern :: rest)) Buffer.empty :=
    operator.map_fold Buffer.ofRows (fun _ _ => rfl) _
  rw [carry, carry, ← collected, bind_map_left, Operator.fold, Operator.fold]
  simp only [bind_assoc]
  rfl

end Carry

section Planning

variable {Output : Type} {projection : Reader Output} {source : Operator} {builder : SegmentBuilder}

theorem buildSegments_snoc (source : Operator) (finished : List (List UpdatingClause)) (segment : List UpdatingClause) :
    buildSegments source (finished ++ [segment]) =
      if finished.isEmpty then applyMutatingPatterns (buildSegments source finished) segment
      else buildTailSegment (buildSegments source finished) segment := by
  cases finished with
  | nil => rfl
  | cons root tails => simp [buildSegments]

namespace SegmentBuilder

def plan (builder : SegmentBuilder) (source : Operator) : Operator := buildSegments source builder.segments

def entry (builder : SegmentBuilder) (source : Operator) : Operator :=
  if builder.finished.isEmpty then .barrier (buildSegments source builder.finished)
  else .barrier (.barrier (buildSegments source builder.finished))

theorem plan_of_isEmpty (fresh : builder.current = []) :
    builder.plan source = buildSegments source builder.finished := by
  rw [plan, segments, buildSegments_snoc, fresh]
  split <;> rfl

theorem plan_of_ne_nil (used : builder.current ≠ []) :
    builder.plan source = builder.current.foldl applyMutatingPattern (builder.entry source) := by
  have notEmpty : builder.current.isEmpty = false := isEmpty_eq_false_iff.mpr used
  rw [plan, segments, buildSegments_snoc, entry]
  split <;> simp [buildTailSegment, applyMutatingPatterns, notEmpty]

theorem plan_finishAndStartNext : builder.finishAndStartNext.plan source = builder.plan source := by
  rw [plan_of_isEmpty rfl]
  rfl

theorem plan_push (clause : UpdatingClause) :
    ({ builder with current := builder.current ++ [clause] } : SegmentBuilder).plan source =
      applyMutatingPattern (if builder.current.isEmpty then builder.entry source else builder.plan source) clause := by
  rw [plan_of_ne_nil (append_ne_nil_of_right_ne_nil _ (cons_ne_nil _ _)), foldl_append]
  by_cases fresh : builder.current = []
  · rw [fresh]
    rfl
  · rw [if_neg (by simp [fresh]), plan_of_ne_nil fresh]
    rfl

/-- A segment that has no update yet reads from an operator that has drained its source. -/
def Ready (builder : SegmentBuilder) (source : Operator) : Prop :=
  builder.current = [] → (builder.plan source).Drained

theorem carry_merge_entry (fresh : builder.current = []) (pattern : Merge) (rest : List UpdatingClause) :
    carry projection (.merge pattern (builder.entry source)) rest =
      carry projection (builder.plan source) (.merge pattern :: rest) := by
  rw [plan_of_isEmpty fresh]
  unfold entry
  split
  · exact carry_merge pattern _ rest
  have once : carry projection (.merge pattern (.barrier (.barrier (buildSegments source builder.finished)))) rest =
      carry projection (.merge pattern (.barrier (buildSegments source builder.finished))) rest := by
    rw [carry, Operator.fold, (Operator.barrier_drained _).fold_barrier]
    rfl
  rw [once, carry_merge]

theorem add_writes (streams : clause.writes = some writes) :
    builder.add clause = { builder with current := builder.current ++ [clause] } := by
  cases clause with
  | create | set | remove => rfl
  | delete | merge => cases streams

theorem add_merge (builder : SegmentBuilder) (source : Operator) (pattern : Merge) :
    ∃ ready : SegmentBuilder, ready.current = [] ∧ ready.plan source = builder.plan source ∧
      (builder.add (.merge pattern)).plan source = .merge pattern (ready.entry source) := by
  by_cases work : builder.hasLocalWork
  · refine ⟨builder.finishAndStartNext, rfl, plan_finishAndStartNext, ?_⟩
    rw [add, if_pos work, plan_finishAndStartNext, plan_push]
    rfl
  · have fresh : builder.current = [] := by
      simp only [hasLocalWork, Bool.or_eq_true, Bool.not_eq_true', isEmpty_eq_false_iff] at work
      exact not_not.mp (not_or.mp work).2
    refine ⟨builder, fresh, rfl, ?_⟩
    rw [add, if_neg work, plan_finishAndStartNext, plan_push, fresh]
    rfl

theorem carry_add (projection : Reader Output) (ready : builder.Ready source) (clause : UpdatingClause)
    (rest : List UpdatingClause) :
    (builder.add clause).Ready source ∧ carry projection ((builder.add clause).plan source) rest =
        carry projection (builder.plan source) (clause :: rest) := by
  have onEntry : carry projection (if builder.current.isEmpty then builder.entry source else builder.plan source)
      (clause :: rest) = carry projection (builder.plan source) (clause :: rest) := by
    split
    next fresh =>
      have drained := ready (isEmpty_iff.mp fresh)
      rw [plan_of_isEmpty (isEmpty_iff.mp fresh)] at drained ⊢
      unfold entry
      split
      · exact carry_barrier drained _
      · rw [carry_barrier (Operator.barrier_drained _), carry_barrier drained]
    · rfl
  have notFresh : ({ builder with current := builder.current ++ [clause] } : SegmentBuilder).Ready source :=
    fun fresh => absurd fresh (append_ne_nil_of_right_ne_nil _ (cons_ne_nil _ _))
  cases streams : clause.writes with
  | some writes =>
    rw [add_writes streams, plan_push, carry_writes streams, onEntry]
    exact ⟨notFresh, rfl⟩
  | none =>
    cases clause with
    | create | set | remove => cases streams
    | delete detach expressions =>
      refine ⟨notFresh, Eq.trans ?_ onEntry⟩
      rw [← carry_delete]
      exact congrArg (carry projection · rest) (plan_push (.delete detach expressions))
    | merge pattern =>
      obtain ⟨start, fresh, samePlan, planned⟩ := builder.add_merge source pattern
      constructor
      · intro _
        rw [planned]
        exact Operator.merge_drained pattern _
      · rw [planned, carry_merge_entry fresh, samePlan]

end SegmentBuilder

theorem carry_segments (ready : builder.Ready source) (clauses : List UpdatingClause) :
    carry projection ((clauses.foldl SegmentBuilder.add builder).plan source) [] =
      carry projection (builder.plan source) clauses := by
  induction clauses generalizing builder with
  | nil => rfl
  | cons clause rest ih =>
    obtain ⟨stillReady, same⟩ := SegmentBuilder.carry_add projection ready clause rest
    rw [foldl_cons, ih stillReady, same]

theorem execute_eq_flow (reads : Bool) (clauses : List UpdatingClause) (rows : List Row) :
    execute projection reads clauses rows = flow projection clauses rows := by
  have ready : (⟨[], [], reads⟩ : SegmentBuilder).Ready (.rows rows) := fun _ => Operator.rows_drained rows
  have last : ∀ operator : Operator, carry projection operator [] = operator.fold (project projection) [] := by
    intro operator
    have collected : Buffer.ofOutputs <$> operator.fold (project projection) [] =
        operator.fold (consume projection []) Buffer.empty :=
      operator.map_fold Buffer.ofOutputs (fun _ _ => rfl) []
    rw [carry, ← collected, bind_map_left]
    exact bind_pure _
  have carried : carry projection ((clauses.foldl SegmentBuilder.add ⟨[], [], reads⟩).plan (.rows rows)) [] =
      flow projection clauses rows := carry_segments ready clauses
  rw [last] at carried
  exact carried

def numbered (table : List (String → Value)) : List Row := table.mapIdx fun position values => ⟨[position], values⟩

end Planning

/-! Counting up a property of a node, for every row. -/

def Expression.named (name : String) : Expression where
  value _ row := .ok (row.values name)
  reads _ := ∅
  yields row := {entity | entity ∈ (row.values name).entity}
  value_congr _ _ _ _ := rfl
  value_yields _ _ _ same := Except.ok.inj same ▸ fun _ member => member

def Expression.constant (value : Value) : Expression where
  value _ _ := .ok value
  reads _ := ∅
  yields _ := {entity | entity ∈ value.entity}
  value_congr _ _ _ _ := rfl
  value_yields _ _ _ same := Except.ok.inj same ▸ fun _ member => member

def Graph.propertyOf (graph : Graph) (value : Value) (key : String) : Value :=
  (value.entity.bind fun entity => graph.property entity key).getD .null

def Expression.plus (name key : String) (step : Int) : Expression where
  value graph row :=
    match graph.propertyOf (row.values name) key with
    | .integer value => .ok (.integer (value + step))
    | _ => .ok .null
  reads row := {location | ∃ entity ∈ (row.values name).entity, location = .property entity key}
  yields _ := Set.univ
  value_congr first second row agree := by
    have same : first.propertyOf (row.values name) key = second.propertyOf (row.values name) key := by
      unfold Graph.propertyOf
      cases held : (row.values name).entity with
      | none => rfl
      | some entity =>
        have here := agree (.property entity key) ⟨entity, held, rfl⟩
        simp only [Graph.read, Cell.value.injEq] at here
        simp only [Option.bind_some, here]
    rw [same]
  value_yields _ _ _ _ _ _ := trivial

/-- `SET q.c = q.c + 1`. -/
def countUp : UpdatingClause := .set [.property (.named "q") "c" (.plus "q" "c" 1)]

def counters : Graph where
  nodes := {.stored 1, .stored 2}
  links := ∅
  label _ _ := false
  property _ key := if key = "c" then some (.integer 0) else none

def bindsQ (id : Nat) (name : String) : Value := if name = "q" then .node (.stored id) else .null

/-- `SET q.c = 5`. -/
def resetCounter : UpdatingClause := .set [.property (.named "q") "c" (.constant (.integer 5))]

end RocksGraph.Updates
