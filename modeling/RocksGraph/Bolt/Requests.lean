import RocksGraph.Bolt.Answers

/-! Every request is answered once.

Each lemma follows a handler from the check of its message to its summary. What a
handler throws on the way reaches `failSession`, and what interrupts it ends in
`IGNORED`; only the last step of each depends on the request. -/

set_option autoImplicit false

namespace RocksGraph.Bolt

open Foundation List BoltSession

variable {codec : Codec} {type : BoltMsg} {held : List Row} {before now : Work} {known : List Effect → Prop}

def Serves (codec : Codec) (type : BoltMsg) (held : List Row) (before now : Work) : Prop :=
  Knows codec (fun _ => True) type held before now

variable {condition : Work → Prop} {change : BoltSession → BoltSession} {thrown : Failure → Work → Prop}
  {transaction : Option Nat} {target : Target}

section Answers

variable (interrupts : ∀ session, (change session).remainingInterrupts = session.remainingInterrupts)
  (sending : ∀ now, condition now → Sending codec type before now)
  (live : ∀ now, condition now → Live (change now.session).held { now with session := change now.session })
  (matching : ∀ now, condition now → (change now.session).Matches)
include interrupts sending live matching

variable {metadata : Metadata}

theorem succeed_answers (notPull : type ≠ .pullN) (ps : ∀ session, (change session).ps = session.ps) :
    Meets condition (do setSession change; post (.success metadata)) (fun _ => Answered codec type before) thrown := by
  apply Meets.bind Meets.changed
  intro _
  apply Meets.modify
  rintro _ ⟨now, holds, rfl⟩
  exact ((sending now holds).setSession (interrupts _) (ps _)).succeeds metadata notPull (live now holds) (matching now holds)

theorem flush_answers (ps : ∀ session, (change session).ps = session.ps ++ [.success metadata]) :
    Meets condition (do setSession change; flushSessionBuffer) (fun _ => Answered codec type before) thrown := by
  apply Meets.bind Meets.changed
  intro _
  apply Meets.modify
  rintro _ ⟨now, holds, rfl⟩
  have nonempty : (change now.session).ps.isEmpty = false := by simp [ps]
  have base : Base type before { now with session := change now.session } :=
    (sending now holds).toBase.of_same rfl rfl rfl (interrupts _) rfl rfl
  simp only [nonempty, Bool.false_eq_true, if_false]
  refine ⟨(base.post _).of_same rfl rfl rfl rfl rfl rfl, ?_, fun _ => rfl, fun stillOpen => ?_, fun _ _ => ?_⟩
  · simp only [postResponse_session]
    exact (live now holds).of_same rfl rfl (by simp)
  · have wasOpen : now.closed = false := by simpa using stillOpen
    exact (sending now holds).reply metadata wasOpen (by simp [Work.postResponse, wasOpen, ps]) (by simp)
  · obtain ⟨transaction, query⟩ := matching now holds
    simp only [postResponse_session]
    exact ⟨transaction, query⟩

end Answers

variable (outcomes : Outcomes)

theorem checkTransactionLeader_knows (transaction : ActiveBoltTransaction) :
    Meets (Knows codec known type held before) (checkTransactionLeader outcomes transaction)
      (fun _ => Knows codec known type held before) (fun _ => Failing type before) := by
  unfold checkTransactionLeader
  split
  · apply Meets.bind (perform_knows outcomes.raftStatus)
    intro status
    apply Meets.bind (require_knows _)
    intro _
    exact Meets.pure fun _ => id
  · exact Meets.pure fun _ => id

def Begun (transaction : Nat) (explicit : Bool) (effects : List Effect) : Prop :=
  Effect.begin transaction explicit ∈ effects ∧ transaction ∉ committed effects ∧
    taken transaction effects = passed transaction effects

theorem Serving.begin (serving : Serving codec type held before now) (explicit : Bool) :
    let next : Work := { now with
      nextTransaction := now.nextTransaction + 1
      effects := now.effects ++ [.begin now.nextTransaction explicit] }
    Knows codec (Begun now.nextTransaction explicit) type held before next := by
  intro next
  obtain ⟨absent, uncommitted, noneTaken, nonePassed⟩ := serving.history.fresh
  have sameCommitted : committed next.effects = committed now.effects := by simp [next, committed]
  have old {transaction : Nat} {kind : Bool} (mem : Effect.begin transaction kind ∈ now.effects) :
      Effect.begin transaction kind ∈ next.effects := mem_append_left _ mem
  have sameRows (transaction : Nat) : taken transaction next.effects = taken transaction now.effects ∧
      passed transaction next.effects = passed transaction now.effects := by simp [next, taken, passed]
  have base : Base type before next := by
    refine serving.toBase.emit ⟨?_, ?_, ?_, ?_, ?_⟩ (by rintro _ ⟨⟩)
    · refine forall_mem_snoc (fun effect isOld transaction isTransaction =>
        Nat.lt_succ_of_lt (serving.history.named effect isOld transaction isTransaction)) ?_
      rintro _ ⟨⟩
      exact Nat.lt_succ_self _
    · intro transaction kind kind' first second
      simp only [mem_append, mem_singleton] at first second
      rcases first with first | ⟨rfl, rfl⟩
      · rcases second with second | ⟨rfl, rfl⟩
        · exact serving.history.kind transaction kind kind' first second
        · exact absurd first (absent kind)
      · rcases second with second | ⟨-, rfl⟩
        · exact absurd second (absent kind')
        · rfl
    · intro transaction mem
      obtain ⟨kind, begun⟩ := serving.history.begun transaction (sameCommitted ▸ mem)
      exact ⟨kind, old begun⟩
    · exact sameCommitted ▸ serving.history.once
    · intro earlier transaction later split begun
      rcases split_concat split with ⟨-, same, -⟩ | ⟨rest, -, isOld⟩
      · cases same
      simp only [mem_append, mem_singleton] at begun
      rcases begun with begun | ⟨rfl, -⟩
      · exact serving.history.finished earlier transaction rest isOld begun
      · exact absurd (mem_committed.mpr (isOld ▸ (by simp))) uncommitted
  have live : Live held next := by
    constructor
    · intro query transaction isActive isTransaction
      obtain ⟨begun, free, rows⟩ := serving.live.query query transaction isActive isTransaction
      refine ⟨old begun, sameCommitted ▸ free, ?_⟩
      rw [(sameRows transaction).1, (sameRows transaction).2, rows]
    · intro active transaction isActive isTransaction
      obtain ⟨begun, free⟩ := serving.live.transaction active transaction isActive isTransaction
      exact ⟨old begun, sameCommitted ▸ free⟩
  refine ⟨⟨serving.toSending.emit base rfl, serving.query, serving.transaction, serving.state, live⟩, ?_⟩
  refine ⟨mem_append_right _ (mem_singleton.mpr rfl), sameCommitted ▸ uncommitted, ?_⟩
  rw [(sameRows _).1, (sameRows _).2, noneTaken, nonePassed]

theorem beginTransaction_knows (explicit : Bool) :
    Meets (Serves codec type held before) (beginTransaction outcomes explicit)
      (fun transaction => Knows codec (Begun transaction explicit) type held before) (fun _ => Failing type before) := by
  apply Meets.bind (perform_knows outcomes.beginTransaction)
  intro _
  exact fun now knows => knows.1.begin explicit

def Opened (transaction : ActiveBoltTransaction) (effects : List Effect) : Prop :=
  ∀ found, transaction.transaction = some found → Begun found true effects

theorem openTransaction_knows (metadata : TransactionMetadata) :
    Meets (Serves codec type held before) (openTransaction outcomes metadata)
      (fun transaction => Knows codec (Opened transaction) type held before) (fun _ => Failing type before) := by
  unfold openTransaction
  split
  · apply Meets.bind (perform_knows outcomes.openGraph)
    intro _
    apply Meets.bind (perform_knows outcomes.raftStatus)
    intro status
    apply Meets.bind (require_knows _)
    intro term
    apply Meets.bind (beginTransaction_knows outcomes true)
    intro transaction
    apply Meets.pure
    rintro now ⟨serving, begun⟩
    refine ⟨serving, fun found isFound => ?_⟩
    cases isFound
    exact begun
  · exact Meets.pure fun now knows => ⟨knows.1, fun found isFound => nomatch isFound⟩

theorem processBegin_answers (fields : List Any) (noQuery : before.session.activeQuery = none)
    (notPull : type ≠ .pullN) :
    Meets (Serves codec type before.session.held before) (processBegin outcomes fields)
      (fun _ => Answered codec type before) Never := by
  apply Meets.attempt _ (failSession_answers outcomes)
  apply Meets.bind (require_knows _)
  intro extra
  apply Meets.bind (require_knows _)
  intro metadata
  apply Meets.bind (openTransaction_knows outcomes metadata)
  intro transaction
  apply unlessIgnored
  · exact Meets.pure fun now isIgnored => isIgnored.answered rfl notPull
  apply succeed_answers
  · exact fun _ => rfl
  · exact fun now knows => knows.1.toSending
  · rintro now ⟨serving, opened⟩
    refine live_of_noQuery (serving.query.trans noQuery) fun active found isActive isTransaction => ?_
    cases isActive
    exact ⟨(opened found isTransaction).1, (opened found isTransaction).2.1⟩
  · rintro now ⟨serving, -⟩
    have none : now.session.activeQuery = none := serving.query.trans noQuery
    exact ⟨by simp, by simp [none]⟩
  · exact notPull
  · exact fun _ => rfl

theorem Serving.commit (serving : Serving codec type held before now) {transaction : Nat} {explicit : Bool}
    (begun : Effect.begin transaction explicit ∈ now.effects) (uncommitted : transaction ∉ committed now.effects)
    (finished : explicit = false → Finished transaction now.effects)
    (allowed : explicit = true → type = .commit) : Sending codec type before (now.emitted (.commit transaction)) := by
  have sameKind {kind : Bool} (mem : Effect.begin transaction kind ∈ now.effects) : kind = explicit :=
    serving.history.kind transaction kind explicit mem begun
  have history : History (now.emitted (.commit transaction)) :=
    serving.history.commit begun uncommitted
      fun mem => finished (sameKind mem).symm
  refine serving.toSending.emit (serving.toBase.emit history ?_) rfl
  rintro _ ⟨⟩
  cases explicit with
  | true => exact .inr (allowed rfl)
  | false => exact .inl begun

/-- The request has only its SUCCESS to give: nothing but a query may be open. -/
def Ending (codec : Codec) (type : BoltMsg) (before now : Work) : Prop :=
  Sending codec type before now ∧ now.session.activeQuery = before.session.activeQuery

theorem Ending.later {next : Work} (ending : Ending codec type before now) (later : Later now next) :
    Ending codec type before next :=
  ⟨ending.1.later later, later.query.trans ending.2⟩

theorem Serving.ending (serving : Serving codec type held before now) : Ending codec type before now :=
  ⟨serving.toSending, serving.query⟩

theorem commitTransaction_ends {transaction : ActiveBoltTransaction}
    (active : before.session.activeTransaction = some transaction) :
    Meets (Serves codec .commit held before) (commitTransaction outcomes transaction)
      (fun _ => Ending codec .commit before) (fun _ => Failing .commit before) := by
  apply Meets.bind (require_knows _)
  intro _
  cases isTransaction : transaction.transaction with
  | none => exact Meets.pure fun now knows => knows.1.ending
  | some found =>
    have emitted : Meets (Serves codec .commit held before) (emit (.commit found)) (fun _ => Ending codec .commit before)
        (fun _ => Failing .commit before) := by
      apply Meets.modify
      rintro now ⟨serving, -⟩
      obtain ⟨begun, uncommitted⟩ :=
        serving.live.transaction transaction found (serving.transaction.trans active) isTransaction
      exact ⟨serving.commit begun uncommitted nofun fun _ => rfl, serving.query⟩
    refine Meets.bind emitted fun _ => ?_
    exact (perform_later outcomes.commit _ fun _ _ => Ending.later).weaken (fun _ => id) (fun _ _ => id)
      fun _ _ ending => ending.1.toFailing

theorem endTransaction_ends {transaction : ActiveBoltTransaction}
    (active : before.session.activeTransaction = some transaction) :
    Meets (Serves codec type held before) (endTransaction outcomes type transaction)
      (fun _ => Ending codec type before) (fun _ => Failing type before) := by
  unfold endTransaction
  split
  next isCommit =>
    subst isCommit
    exact Meets.bind (checkTransactionLeader_knows outcomes transaction) fun _ => commitTransaction_ends outcomes active
  · exact (arrive_knows outcomes.rollback).weaken (fun _ => id) (fun _ _ knows => knows.1.ending) fun _ _ => id

theorem processCommitOrRollback_answers (fields : List Any)
    (noQuery : before.session.activeQuery = none) (notPull : type ≠ .pullN) :
    Meets (Serves codec type before.session.held before) (processCommitOrRollback outcomes type fields)
      (fun _ => Answered codec type before) Never := by
  apply Meets.attempt _ (failSession_answers outcomes)
  apply Meets.bind (require_knows _)
  intro _
  apply Meets.bind (arrive_knows outcomes.start)
  intro _
  apply Meets.read
  intro work knows
  cases isActive : work.session.activeTransaction with
  | none =>
    apply Meets.throw
    rintro _ rfl
    exact knows.1.toFailing
  | some transaction =>
    have active : before.session.activeTransaction = some transaction := knows.1.transaction.symm.trans isActive
    apply Meets.given (unlessIgnored (abort_ignored outcomes _) ?_) fun _ same => same ▸ knows
    apply Meets.bind (endTransaction_ends outcomes active)
    intro _
    apply succeed_answers
    · exact fun _ => rfl
    · exact fun now ending => ending.1
    · intro now ending
      exact live_of_none (ending.2.trans noQuery) rfl
    · intro now ending
      exact ⟨by simp, by simp [ending.2.trans noQuery]⟩
    · exact notPull
    · exact fun _ => rfl

/-! ## Results -/

theorem Serving.reads (serving : Serving codec type held before now)
    (reads : before.session.Reads transaction) : now.session.Reads transaction := by
  unfold BoltSession.Reads
  rw [serving.query, serving.transaction]
  exact reads

section

variable {effect : Effect} (serving : Serving codec type held before now) (reads : before.session.Reads transaction)
  (isRow : effect.isRow) (isTransaction : effect.transaction = transaction)
include serving reads isRow isTransaction

theorem Serving.emit_row : Base type before (now.emitted effect) := by
  have history : History (now.emitted effect) :=
    serving.history.row isRow fun found isFound =>
      serving.live.named serving.history (serving.reads reads) found (isTransaction ▸ isFound)
  refine serving.toBase.emit history ?_
  rintro _ rfl
  cases isRow

theorem Serving.row {held' : List Row} (quiet : delivered codec [effect] = []) (live : Live held' (now.emitted effect)) :
    Serving codec type held' before (now.emitted effect) :=
  ⟨serving.toSending.emit (serving.emit_row reads isRow isTransaction) quiet,
    serving.query, serving.transaction, serving.state, live⟩

end

theorem flush_serves (thrown : Failure → Work → Prop) :
    Meets (Serves codec type held before) flushSessionBuffer (fun _ => Serves codec type held before) thrown := by
  apply Meets.modify
  rintro now ⟨serving, -⟩
  split
  next none =>
    exact ⟨⟨serving.toSending.setSession rfl (isEmpty_iff.mp none).symm,
      serving.query, serving.transaction, serving.state, serving.live.of_same rfl rfl rfl⟩, trivial⟩
  · have sent (isOpen : now.closed = false) : ∃ added, now.effects = before.effects ++ added ∧
        (now.postResponse now.session.ps).posted = before.posted ++ delivered codec added := by
      obtain ⟨added, effects, rows⟩ := serving.rows isOpen
      exact ⟨added, effects, by simpa [Work.postResponse, isOpen] using rows⟩
    refine ⟨⟨⟨⟨(serving.toBase.post _).of_same rfl rfl rfl rfl rfl rfl, fun stillOpen => ?_⟩, fun stillOpen => ?_,
      fun _ _ => rfl⟩, ?_, ?_, ?_, ?_⟩, trivial⟩
    · obtain ⟨added, -, posted⟩ := sent (by simpa using stillOpen)
      exact ⟨_, posted, delivered_isRecord codec added⟩
    · obtain ⟨added, effects, posted⟩ := sent (by simpa using stillOpen)
      exact ⟨added, by simpa using effects, by simpa using posted⟩
    · simpa using serving.query
    · simpa using serving.transaction
    · simpa using serving.state
    · exact serving.live.of_same (by simp) (by simp) (by simp)

theorem passRow_serves {row : Row} (reads : before.session.Reads transaction) :
    Meets (Serves codec type (row :: held) before) (passRow codec type transaction row)
      (fun _ => Serves codec type held before) (fun _ => Failing type before) := by
  unfold passRow
  split
  next isPull =>
    have converts : Meets (Serves codec type (row :: held) before) (require (codec.convertRow row))
        (fun record now => codec.convertRow row = .ok record ∧ Serves codec type (row :: held) before now)
        (fun _ => Failing type before) := by
      cases codec.convertRow row with
      | ok record => exact Meets.pure fun _ serves => ⟨rfl, serves⟩
      | error failure => exact Meets.throw fun _ serves => serves.1.toFailing
    apply Meets.bind converts
    intro record
    -- the row is in the books before it is packed
    apply Meets.bind Meets.changed
    intro _
    have packed : Meets
        (fun next => ∃ now, (codec.convertRow row = .ok record ∧ Serves codec type (row :: held) before now) ∧
          next = now.emitted (.deliver transaction row))
        (setSession fun session => { session with ps := session.ps ++ [.record record] })
        (fun _ => Serves codec type held before) (fun _ => Failing type before) := by
      apply Meets.modify
      rintro _ ⟨now, ⟨isRecord, serving, -⟩, rfl⟩
      have live : Live held (now.emitted (.deliver transaction row)) :=
        serving.live.pass (serving.reads reads) (.inl rfl)
      exact ⟨⟨serving.toSending.deliver isPull (serving.emit_row reads rfl rfl) isRecord,
        serving.query, serving.transaction, serving.state, live.of_same rfl rfl rfl⟩, trivial⟩
    apply Meets.bind packed
    intro _
    apply Meets.read
    intro work serves
    split
    · exact (flush_serves _).given fun _ same => same ▸ serves
    · exact Meets.pure fun _ same => same ▸ serves
  · apply Meets.modify
    rintro now ⟨serving, -⟩
    exact ⟨serving.row reads rfl rfl rfl (serving.live.pass (serving.reads reads) (.inr rfl)), trivial⟩

def Ended (transaction : Option Nat) (effects : List Effect) : Prop := Effect.next transaction none ∈ effects

section

variable (reads : before.session.Reads transaction)
include reads

theorem emit_next (row : Option Row) :
    Meets (Serves codec type held before) (emit (.next transaction row))
      (fun _ => Knows codec (fun effects => row = none → Ended transaction effects) type (held ++ row.toList) before)
      (fun _ => Failing type before) := by
  apply Meets.modify
  rintro now ⟨serving, -⟩
  refine ⟨serving.row reads rfl rfl rfl (serving.live.next (serving.reads reads) row), fun isNone => ?_⟩
  subst isNone
  exact mem_append_right _ (mem_singleton.mpr rfl)

theorem nextRow_last {cursor : QueryResultCursor}
    (last : cursor.rows = []) :
    Meets (Serves codec type [] before) (nextRow transaction cursor)
      (fun result now => result.1 = none ∧ Knows codec (Ended transaction) type [] before now)
      (fun _ => Failing type before) := by
  unfold nextRow
  rw [last]
  apply Meets.bind (perform_knows cursor.finish)
  intro _
  apply Meets.bind (emit_next reads none)
  intro _
  exact Meets.pure fun now knows => ⟨rfl, knows.1, knows.2 rfl⟩

theorem nextRow_knows (cursor : QueryResultCursor) :
    Meets (Serves codec type [] before) (nextRow transaction cursor)
      (fun result => Knows codec (fun effects => result.1 = none → Ended transaction effects) type result.1.toList before)
      (fun _ => Failing type before) := by
  cases isRows : cursor.rows with
  | nil =>
    apply (nextRow_last reads isRows).weaken (fun _ => id) _ fun _ _ => id
    rintro ⟨row, rest⟩ now ⟨rfl, knows⟩
    exact ⟨knows.1, fun _ => knows.2⟩
  | cons call rows =>
    unfold nextRow
    rw [isRows]
    apply Meets.bind (perform_knows call)
    intro row
    apply Meets.bind (emit_next reads (some row))
    intro _
    exact Meets.pure fun _ => id

end

def Took (codec : Codec) (type : BoltMsg) (transaction : Option Nat) (before : Work) :
    Option (QueryResultCursor × Bool) → Work → Prop
  | none => Answered codec type before
  | some (_, stopped) => Knows codec (fun effects => stopped = false → Ended transaction effects) type [] before

theorem takeRows_took (outcomes : Outcomes)
    (reads : before.session.Reads transaction) (columns : List String) (finish : Call Unit)
    (rows : List (Call Row)) (remaining : Option Nat) :
    Meets (Serves codec type [] before) (takeRows codec outcomes type transaction columns finish rows remaining)
      (Took codec type transaction before) (fun _ => Failing type before) := by
  have stops : Meets (Ignored type [] before)
      (do abortSession outcomes; return (none : Option (QueryResultCursor × Bool)))
      (Took codec type transaction before) (fun _ => Failing type before) :=
    Meets.bind (abort_ignored outcomes _) fun _ => Meets.pure fun _ => id
  -- each turn passes on the row that it takes
  induction rows generalizing remaining with
  | nil =>
    unfold takeRows
    split
    · exact Meets.pure fun now serves => ⟨serves.1, nofun⟩
    apply unlessIgnored stops
    apply Meets.bind (nextRow_last reads rfl)
    intro result
    exact Meets.pure fun now last => ⟨last.2.1, fun _ => last.2.2⟩
  | cons call rows ih =>
    unfold takeRows
    split
    · exact Meets.pure fun now serves => ⟨serves.1, nofun⟩
    apply unlessIgnored stops
    apply Meets.bind (perform_knows call)
    intro row
    apply Meets.bind (emit_next reads (some row))
    intro _
    apply Meets.bind ((passRow_serves reads).given fun now knows => ⟨knows.1, trivial⟩)
    intro _
    exact ih (remaining.map Nat.pred)

theorem takeQueryRows_took (outcomes : Outcomes)
    (reads : before.session.Reads transaction) (query : ActiveBoltQuery) (n : Option Nat) :
    Meets (Serves codec type query.bufferedRow.toList before)
      (takeQueryRows codec outcomes type transaction query n)
      (Took codec type transaction before) (fun _ => Failing type before) := by
  unfold takeQueryRows
  cases query.bufferedRow with
  | none => exact takeRows_took outcomes reads _ _ _ n
  | some row =>
    apply unlessIgnored
    · exact Meets.bind (abort_ignored outcomes _) fun _ => Meets.pure fun _ => id
    apply Meets.bind (passRow_serves reads)
    intro _
    exact takeRows_took outcomes reads _ _ _ (n.map Nat.pred)

theorem lookAhead_knows (reads : before.session.Reads transaction) (cursor : QueryResultCursor)
    (stopped : Bool) :
    Meets (Knows codec (fun effects => stopped = false → Ended transaction effects) type [] before)
      (lookAhead transaction cursor stopped)
      (fun result => Knows codec (fun effects => result.1 = none → Ended transaction effects) type result.1.toList before)
      (fun _ => Failing type before) := by
  cases stopped with
  | true =>
    exact (nextRow_knows reads cursor).given fun now knows => ⟨knows.1, trivial⟩
  | false => exact Meets.pure fun now knows => ⟨knows.1, fun _ => knows.2 rfl⟩

inductive IsTarget (session : BoltSession) : Target → Prop where
  | auto {query : ActiveBoltQuery} (noTransaction : session.activeTransaction = none)
      (active : session.activeQuery = some query) : IsTarget session ⟨query, none, query.transaction⟩
  | explicit {query : ActiveBoltQuery} {qid : Int} {transaction : ActiveBoltTransaction}
      (noQuery : session.activeQuery = none) (active : session.activeTransaction = some transaction) :
      IsTarget session ⟨query, some qid, transaction.transaction⟩

theorem IsTarget.reads {session : BoltSession} (isTarget : IsTarget session target) :
    session.Reads target.transaction := by
  cases isTarget with
  | auto _ active => exact .inl ⟨_, active, rfl⟩
  | explicit noQuery active => exact .inr ⟨noQuery, _, active, rfl⟩

theorem findTarget_serves (qid : Int)
    (exclusive : before.session.activeTransaction.isSome → before.session.activeQuery = none) :
    Meets (Serves codec type before.session.held before) (findTarget outcomes type qid)
      (fun target now => IsTarget before.session target ∧ Serves codec type target.query.bufferedRow.toList before now)
      (fun _ => Failing type before) := by
  apply Meets.read
  intro work serves
  rw [serves.1.transaction, serves.1.query]
  cases isActive : before.session.activeTransaction with
  | some transaction =>
    have noQuery : before.session.activeQuery = none := exclusive (by rw [isActive]; rfl)
    apply Meets.bind ((checkTransactionLeader_knows outcomes transaction).given fun _ same => same ▸ serves)
    intro _
    simp only
    split
    next query found =>
      apply Meets.pure
      rintro now ⟨serving, -⟩
      -- the rows of explicit transactions are not in the books
      have live : Live query.bufferedRow.toList now :=
        live_of_noQuery (serving.query.trans noQuery) serving.live.transaction
      exact ⟨.explicit noQuery isActive,
        ⟨serving.toSending, serving.query, serving.transaction, serving.state, live⟩, trivial⟩
    · exact Meets.throw fun now knows => knows.1.toFailing
  | none =>
    apply Meets.bind ((require_knows _).given fun _ same => same ▸ serves)
    intro _
    cases isQuery : before.session.activeQuery with
    | none => exact Meets.throw fun now knows => knows.1.toFailing
    | some query =>
      apply Meets.pure
      intro now knows
      refine ⟨.auto isActive isQuery, ?_⟩
      have sameHeld : before.session.held = query.bufferedRow.toList := by
        unfold held
        rw [isQuery]
        rfl
      exact sameHeld ▸ knows

section

variable (isTarget : IsTarget before.session target)
include isTarget

theorem answerHasMore_answers
    (cursor : QueryResultCursor) (row : Option Row) (thrown : Failure → Work → Prop) :
    Meets (Knows codec known type row.toList before)
      (answerHasMore target { target.query with result := cursor, bufferedRow := row })
      (fun _ => Answered codec type before) thrown := by
  have sameCase : ∀ now, Serving codec type row.toList before now → IsTarget now.session target := by
    intro now serving
    cases isTarget with
    | auto noTransaction active =>
      exact .auto (serving.transaction.trans noTransaction) (serving.query.trans active)
    | explicit noQuery active => exact .explicit (serving.query.trans noQuery) (serving.transaction.trans active)
  apply flush_answers
  · intro session
    unfold setQuery
    split <;> rfl
  · exact fun now knows => knows.1.toSending
  · rintro now ⟨serving, -⟩
    cases sameCase now serving with
    | auto noTransaction active =>
      constructor
      · intro query found isActive isTransaction
        cases isActive
        exact serving.live.query _ found active isTransaction
      · intro other _ isActive
        rw [show now.session.activeTransaction = some other from isActive] at noTransaction
        cases noTransaction
    | explicit noQuery active =>
      refine live_of_noQuery noQuery fun other found isActive isTransaction => ?_
      simp only [setQuery, active, Option.map_some, Option.some.injEq] at isActive
      subst isActive
      exact serving.live.transaction _ found active isTransaction
  · rintro now ⟨serving, -⟩
    cases sameCase now serving with
    | auto noTransaction active => constructor <;> simp [setQuery, noTransaction]
    | explicit noQuery active => constructor <;> simp [setQuery, noQuery, active]
  · exact fun session => rfl

structure Concluded (codec : Codec) (type : BoltMsg) (before now : Work) : Prop
    extends Sending codec type before now where
  live : Live now.session.held now
  matching : now.session.Matches

theorem endResult_concludes :
    Meets (Knows codec (Ended target.transaction) type [] before) (endResult outcomes target)
      (fun _ => Concluded codec type before) (fun _ => Failing type before) := by
  cases isTarget with
  | @explicit query qid transaction noQuery active =>
    apply Meets.modify
    rintro now ⟨serving, -⟩
    have isActive : now.session.activeTransaction = some transaction := serving.transaction.trans active
    have none : now.session.activeQuery = none := serving.query.trans noQuery
    simp only [endQuery, isActive]
    refine ⟨serving.toSending.setSession rfl rfl, live_of_noQuery none ?_, ⟨?_, ?_⟩⟩
    · rintro other found isOther isTransaction
      cases isOther
      exact serving.live.transaction _ found isActive isTransaction
    · split <;> simp
    · split <;> simp [none]
  | @auto query noTransaction active =>
    have commits : Meets (Knows codec (Ended query.transaction) type [] before) (commitQuery outcomes query)
        (fun _ now => Ending codec type before now ∧ now.session.activeTransaction = none)
        (fun _ => Failing type before) := by
      unfold commitQuery
      cases isTransaction : query.transaction with
      | none =>
        apply Meets.pure
        rintro now ⟨serving, -⟩
        exact ⟨serving.ending, serving.transaction.trans noTransaction⟩
      | some found =>
        have emitted : Meets (Knows codec (Ended (some found)) type [] before) (emit (.commit found))
            (fun _ now => Ending codec type before now ∧ now.session.activeTransaction = none)
            (fun _ => Failing type before) := by
          apply Meets.modify
          rintro now ⟨serving, ended⟩
          obtain ⟨begun, uncommitted, rows⟩ :=
            serving.live.query query found (serving.query.trans active) isTransaction
          have finished : Finished found now.effects := ⟨ended, by rw [rows, append_nil]⟩
          exact ⟨⟨serving.commit begun uncommitted (fun _ => finished) nofun, serving.query⟩,
            serving.transaction.trans noTransaction⟩
        apply Meets.bind emitted
        intro _
        apply (perform_later outcomes.commit _ _).weaken (fun _ => id) (fun _ _ => id) fun _ _ ending => ending.1.1.toFailing
        rintro now next ⟨ending, none⟩ later
        exact ⟨ending.later later, later.transaction.trans none⟩
    apply Meets.bind commits
    intro _
    apply Meets.modify
    rintro now ⟨⟨sending, -⟩, none⟩
    refine ⟨sending.setSession rfl rfl, live_of_none rfl none, ?_⟩
    exact ⟨by simp [none], by simp⟩

theorem finishQuery_answers :
    Meets (Knows codec (Ended target.transaction) type [] before) (finishQuery outcomes target)
      (fun _ => Answered codec type before) (fun _ => Failing type before) := by
  apply Meets.bind (endResult_concludes outcomes isTarget)
  intro _
  apply flush_answers
  · exact fun _ => rfl
  · exact fun now concluded => concluded.toSending
  · exact fun now concluded => concluded.live.of_same rfl rfl rfl
  · exact fun now concluded => ⟨concluded.matching.transaction, concluded.matching.query⟩
  · exact fun _ => rfl

end

theorem processPullOrDiscard_answers (outcomes : Outcomes) (fields : List Any)
    (exclusive : before.session.activeTransaction.isSome → before.session.activeQuery = none) :
    Meets (Serves codec type before.session.held before) (processPullOrDiscard codec outcomes type fields)
      (fun _ => Answered codec type before) Never := by
  apply Meets.attempt _ (failSession_answers outcomes)
  apply Meets.bind (require_knows _)
  intro metadata
  apply Meets.bind (arrive_knows outcomes.start)
  intro _
  apply Meets.bind (findTarget_serves outcomes metadata.qid exclusive)
  intro target
  by_cases isTarget : IsTarget before.session target
  swap
  · exact fun now found => absurd found.1 isTarget
  have reads := isTarget.reads
  apply Meets.bind ((takeQueryRows_took outcomes reads target.query metadata.n).given fun _ found => found.2)
  intro result
  cases result with
  | none => exact Meets.pure fun _ => id
  | some took =>
    apply Meets.bind (lookAhead_knows reads took.1 took.2)
    intro ahead
    apply unlessIgnored (abort_ignored outcomes _)
    by_cases more : ahead.1.isSome = true
    · rw [if_pos more]
      exact answerHasMore_answers isTarget ahead.2 _ _
    · have none : ahead.1 = none := Option.not_isSome_iff_eq_none.mp more
      rw [none]
      apply Meets.bind (arrive_knows outcomes.now)
      intro _
      apply unlessIgnored (abort_ignored outcomes _)
      exact (finishQuery_answers outcomes isTarget).given fun now knows => ⟨knows.1, knows.2 rfl⟩

/-! ## Queries -/

theorem checkExplicitLeader_knows (explicit : Option ActiveBoltTransaction) :
    Meets (Knows codec known type held before) (checkExplicitLeader outcomes explicit)
      (fun _ => Knows codec known type held before) (fun _ => Failing type before) := by
  cases explicit with
  | some transaction => exact checkTransactionLeader_knows outcomes transaction
  | none => exact Meets.pure fun _ => id

theorem checkRoutedLeader_knows (routingEnabled : Bool) (metadata : TransactionMetadata) :
    Meets (Knows codec known type held before) (checkRoutedLeader outcomes routingEnabled metadata)
      (fun _ => Knows codec known type held before) (fun _ => Failing type before) := by
  unfold checkRoutedLeader
  split
  · apply Meets.bind (perform_knows outcomes.raftStatus)
    intro status
    apply Meets.bind (require_knows _)
    intro _
    exact Meets.pure fun _ => id
  · exact Meets.pure fun _ => id

def Executed (query : ActiveBoltQuery) (effects : List Effect) : Prop :=
  query.bufferedRow = none ∧ ∀ found, query.transaction = some found → Begun found false effects

theorem executeQuery_knows (explicit : Option ActiveBoltTransaction)
    (routingEnabled : Bool) (metadata : TransactionMetadata) (cypher : String) :
    Meets (Serves codec type held before) (executeQuery outcomes explicit routingEnabled metadata cypher)
      (fun query => Knows codec (Executed query) type held before) (fun _ => Failing type before) := by
  unfold executeQuery
  split
  · apply Meets.bind (perform_knows outcomes.execute)
    intro cursor
    exact Meets.pure fun now knows => ⟨knows.1, rfl, nofun⟩
  · apply Meets.bind (perform_knows outcomes.openGraph)
    intro _
    apply Meets.bind (checkRoutedLeader_knows outcomes routingEnabled metadata)
    intro _
    apply Meets.bind (beginTransaction_knows outcomes false)
    intro transaction
    apply Meets.bind (perform_knows outcomes.execute)
    intro cursor
    apply Meets.pure
    rintro now ⟨serving, begun⟩
    refine ⟨serving, rfl, fun found isFound => ?_⟩
    cases isFound
    exact begun

theorem processRun_answers (outcomes : Outcomes) (fields : List Any)
    (noQuery : before.session.activeQuery = none) (notPull : type ≠ .pullN) :
    Meets (Serves codec type before.session.held before) (processRun codec outcomes fields)
      (fun _ => Answered codec type before) Never := by
  apply Meets.attempt _ (failSession_answers outcomes)
  apply Meets.bind (require_knows _)
  intro request
  apply Meets.read
  intro work serves
  rw [serves.1.transaction]
  apply Meets.bind ((require_knows _).given fun _ same => same ▸ serves)
  intro metadata
  apply Meets.bind (checkExplicitLeader_knows outcomes _)
  intro _
  apply Meets.bind (require_knows _)
  intro _
  apply Meets.bind (executeQuery_knows outcomes _ _ metadata request.cypher)
  intro query
  apply unlessIgnored (abort_ignored outcomes _)
  cases active : before.session.activeTransaction with
  | some transaction =>
    apply Meets.bind (require_knows _)
    intro _
    apply succeed_answers
    · exact fun _ => rfl
    · exact fun now knows => knows.1.toSending
    · rintro now ⟨serving, -⟩
      refine live_of_noQuery (serving.query.trans noQuery) fun other found isActive isTransaction => ?_
      cases isActive
      exact serving.live.transaction transaction found (serving.transaction.trans active) isTransaction
    · rintro now ⟨serving, -⟩
      exact ⟨by simp, by simp [serving.query.trans noQuery]⟩
    · exact notPull
    · exact fun _ => rfl
  | none =>
    apply succeed_answers
    · exact fun _ => rfl
    · exact fun now knows => knows.1.toSending
    · rintro now ⟨serving, isFirst, begun⟩
      have none : now.session.activeTransaction = none := serving.transaction.trans active
      constructor
      · rintro other found isActive isTransaction
        cases isActive
        obtain ⟨isBegun, uncommitted, rows⟩ := begun found isTransaction
        exact ⟨isBegun, uncommitted, by simpa [held, isFirst] using rows⟩
      · intro other _ isActive
        rw [show now.session.activeTransaction = some other from isActive] at none
        cases none
    · rintro now ⟨serving, -⟩
      exact ⟨by simp [serving.transaction.trans active], by simp⟩
    · exact notPull
    · exact fun _ => rfl

theorem processRoute_answers (matching : before.session.Matches) (notPull : type ≠ .pullN) :
    Meets (Serves codec type before.session.held before) (processRoute outcomes)
      (fun _ => Answered codec type before) Never := by
  apply Meets.attempt _ (failSession_answers outcomes)
  apply Meets.bind (perform_knows outcomes.route)
  intro table
  apply Meets.modify
  rintro now ⟨serving, -⟩
  have isHeld : before.session.held = now.session.held := by
    unfold held
    rw [serving.query]
  refine serving.toSending.succeeds table notPull (isHeld ▸ serving.live) ⟨?_, ?_⟩
  · simpa [serving.transaction, serving.state] using matching.transaction
  · simpa [serving.query, serving.state] using matching.query

end RocksGraph.Bolt
