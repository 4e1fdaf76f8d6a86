import RocksGraph.Bolt.Requests

/-! The conversation of a client with its session.

Messages arrive at any time and are served one after the other. Every message
that is served is an exchange: the message, what was sent for it, what it did to
the transactions, and the session that it left. -/

set_option autoImplicit false

namespace RocksGraph.Bolt

open Foundation List BoltSession

/-- The requests that a session accepts in its state; an interrupted one accepts
any, to ignore it. -/
def BoltSession.accepts (session : BoltSession) (type : BoltMsg) : Bool :=
  session.hasInterrupt ||
    match session.state with
    | .ready => type == .run || type == .begin || type == .route
    | .streaming => type == .pullN || type == .discardN
    | .txReady => type == .run || type == .commit || type == .rollback
    | .txStreaming => type == .run || type == .pullN || type == .discardN
    | .failed => isSessionRequest type
    | .defunct => false

structure Exchange where
  message : BoltMsgDetail
  legal : Bool
  answer : List Response
  effects : List Effect
  left : BoltSession

structure Conversation where
  work : Work
  exchanges : List Exchange

inductive SessionEvent where
  | arrive (arrivals : Arrivals)
  | serve (outcomes : Outcomes)

/-- The task that `EnqueueSessionMessage` posts to the strand. -/
def Work.serve (codec : Codec) (outcomes : Outcomes) (message : BoltMsgDetail) (work : Work) : Work :=
  let done := if work.closed then work else ((processBoltMessage codec outcomes message).outcome work).2
  if done.closed then ((abortSession outcomes).outcome done).2 else done

namespace Conversation

def exchangeOf (message : BoltMsgDetail) (before work : Work) : Exchange where
  message
  legal := before.session.accepts message.type
  answer := work.posted.drop before.posted.length
  effects := work.effects.drop before.effects.length
  left := work.session

def next (codec : Codec) (conversation : Conversation) : SessionEvent → Option Conversation
  | .arrive arrivals => some { conversation with work := conversation.work.arrive arrivals }
  | .serve outcomes =>
    match conversation.work.queue with
    | [] => none
    | message :: queue =>
      let before := { conversation.work with queue }
      let work := before.serve codec outcomes message
      some ⟨work, conversation.exchanges ++ [exchangeOf message before work]⟩

def initial (minorVersion : Nat) (routingEnabled : Bool) : Conversation where
  work := {
    session := ⟨none, none, false, [], .ready, 0, routingEnabled⟩
    minorVersion
    closed := false
    closing := false
    received := []
    posted := []
    queue := []
    nextTransaction := 0
    effects := [] }
  exchanges := []

end Conversation

structure Between (work : Work) : Prop where
  counted : work.closed = false → work.session.remainingInterrupts = work.queue.countP isReset
  history : History work
  live : Live work.session.held work
  packed : work.closed = false → work.session.ps = []
  matching : work.closed = false → work.session.remainingInterrupts = 0 → work.session.Matches

structure BoltSession.Cleared (session : BoltSession) : Prop where
  state : session.state = .ready
  query : session.activeQuery = none
  transaction : session.activeTransaction = none
  ps : session.ps = []

structure Served (codec : Codec) (message : BoltMsgDetail) (before now : Work) (answer : List Response) : Prop where
  posted : now.posted = before.posted ++ answer
  answered : before.session.accepts message.type → IsAnswer answer
  failure : (∃ response ∈ answer, response.isFailure) → now.session.state = .failed
  failed : before.session.state = .failed → message.type ≠ .reset →
    answer = [.ignored] ∧ now.session.state = .failed
  rows : ∀ added, now.effects = before.effects ++ added → Delivers codec added answer
  reset : message.type = .reset →
    (answer = [.success []] ∧ now.session.Cleared) ∨ (answer = [.ignored] ∧ now.session.remainingInterrupts ≠ 0)

structure Leaves (codec : Codec) (message : BoltMsgDetail) (before now : Work) : Prop
    extends Base message.type before now where
  live : Live now.session.held now
  packed : now.closed = false → now.session.ps = []
  matching : now.closed = false → now.session.remainingInterrupts = 0 → now.session.Matches
  served : now.closed = false → ∃ answer, Served codec message before now answer

/-- A message that is taken from the queue; its interrupt, if it is a RESET, is
still to be consumed. -/
structure Dispatched (message : BoltMsgDetail) (before : Work) : Prop where
  isOpen : before.closed = false
  counted : before.session.remainingInterrupts = (message :: before.queue).countP isReset
  history : History before
  live : Live before.session.held before
  packed : before.session.ps = []
  matching : before.session.remainingInterrupts = 0 → before.session.Matches

section Message

variable {codec : Codec} {message : BoltMsgDetail} {before now mid : Work}

variable {session : BoltSession}

section

variable (dispatched : Dispatched message before)
include dispatched

theorem Dispatched.base (later : Later before mid)
    (counted : mid.closed = false → session.remainingInterrupts = mid.queue.countP isReset) :
    Base message.type before { mid with session } := by
  obtain ⟨arrived, received, queue, -⟩ := later.arrived
  obtain ⟨named, kind, begun, once, finished⟩ := dispatched.history.later later
  refine ⟨⟨arrived, received, queue⟩, counted, later.closed, ⟨[], ?_⟩, ⟨named, kind, begun, once, finished⟩, ?_⟩
  · simpa using later.effects
  intro transaction mem
  rw [show ({ mid with session } : Work).effects = before.effects from later.effects] at mem
  exact .inl mem

theorem Dispatched.notReset (quiet : before.session.remainingInterrupts = 0) :
    message.type ≠ .reset ∧ before.queue.countP isReset = 0 := by
  have none := dispatched.counted
  rw [quiet, countP_cons] at none
  constructor
  · intro reset
    simp [isReset, reset] at none
  · omega

theorem Dispatched.serves (quiet : before.session.remainingInterrupts = 0) :
    Serves codec message.type before.session.held before before := by
  have base : Base message.type before before :=
    dispatched.base (.refl before) fun _ => by rw [quiet, (dispatched.notReset quiet).2]
  have sending : Sending codec message.type before before :=
    ⟨⟨base, fun _ => ⟨[], by simp, nofun⟩⟩, fun _ => ⟨[], by simp, by simp [dispatched.packed, delivered]⟩,
      fun _ _ => dispatched.packed⟩
  exact ⟨⟨sending, rfl, rfl, rfl, dispatched.live⟩, trivial⟩

end

theorem Answered.leaves (answered : Answered codec message.type before now) (notReset : message.type ≠ .reset)
    (notFailed : before.session.state ≠ .failed) : Leaves codec message before now := by
  refine ⟨answered.toBase, answered.live, answered.packed, answered.matching, fun stillOpen => ?_⟩
  obtain ⟨answer, posted, isAnswer, failure, rows⟩ := answered.answer stillOpen
  exact ⟨answer, posted, fun _ => isAnswer, failure, fun failed => absurd failed notFailed, rows,
    fun reset => absurd reset notReset⟩

/-! ### Interrupts -/

def BoltSession.aborted (session : BoltSession) : BoltSession :=
  { session with activeQuery := none, activeTransaction := none, ps := [] }

variable (outcomes : Outcomes)

theorem abort_later (thrown : Failure → Work → Prop) :
    Meets (fun now => now = before) (abortSession outcomes)
      (fun _ now => ∃ mid, Later before mid ∧ now = { mid with session := mid.session.aborted }) thrown := by
  apply Meets.bind Meets.changed
  intro _
  apply Meets.modify
  rintro _ ⟨_, rfl, rfl⟩
  exact ⟨_, Work.arrive_later _ outcomes.rollback, rfl⟩

section

variable (dispatched : Dispatched message before)
include dispatched

/-- An interrupted session ignores every request but the RESET of its last
interrupt. -/
theorem Dispatched.ignores (later : Later before mid)
    (query : session.activeQuery = none) (transaction : session.activeTransaction = none)
    (ps : session.ps = []) (state : session.state = before.session.state)
    (counted : mid.closed = false → session.remainingInterrupts = mid.queue.countP isReset)
    (pending : session.remainingInterrupts ≠ 0) :
    Leaves codec message before (({ mid with session } : Work).postResponse [.ignored]) := by
  refine ⟨(dispatched.base later counted).post _, live_of_none (by simpa using query) (by simpa using transaction),
    by simp [ps], fun _ none => absurd none (by simpa using pending), fun stillOpen => ?_⟩
  have isOpen : mid.closed = false := by simpa using stillOpen
  refine ⟨[.ignored], ?_, fun _ => ⟨[], .ignored, rfl, nofun, rfl⟩, ?_, fun failed _ => ⟨rfl, ?_⟩,
    fun _ _ => delivers_single nofun, fun _ => .inr ⟨rfl, ?_⟩⟩
  · simp [Work.postResponse, isOpen, later.posted]
  · rintro ⟨response, mem, failed⟩
    rw [mem_singleton.mp mem] at failed
    cases failed
  · simpa [state] using failed
  · simpa using pending

theorem Dispatched.clears (reset : message.type = .reset)
    (later : Later before mid) {left : Nat} (counted : mid.closed = false → left = mid.queue.countP isReset)
    (behind : Later { mid with session := { mid.session.aborted with remainingInterrupts := left } } now) :
    Leaves codec message before (({ now with
      session := { now.session with cancelled := false, state := .ready } } : Work).postResponse [.success []]) := by
  have base : Base message.type before { now with
      session := { now.session with cancelled := false, state := .ready } } :=
    ((dispatched.base later counted).later behind).of_same rfl rfl rfl rfl rfl rfl
  have query : now.session.activeQuery = none := behind.query
  have transaction : now.session.activeTransaction = none := behind.transaction
  have ps : now.session.ps = [] := behind.ps
  refine ⟨base.post _, live_of_none (by simpa using query)
    (by simpa using transaction), by simp [ps], fun _ _ => ⟨by simp [transaction], by simp [query]⟩,
    fun stillOpen => ⟨[.success []], ?_, fun _ => ⟨[], _, rfl, nofun, rfl⟩, ?_,
      fun _ notReset => absurd reset notReset, fun added effects => delivers_single fun _ _ => ?_,
      fun _ => .inl ⟨rfl, by simp, by simpa using query, by simpa using transaction,
        by simpa using ps⟩⟩⟩
  · have isOpen : now.closed = false := by simpa using stillOpen
    simp [Work.postResponse, isOpen, behind.posted, later.posted]
  · rintro ⟨response, mem, failed⟩
    rw [mem_singleton.mp mem] at failed
    cases failed
  · have none : added = [] := by simpa [behind.effects, later.effects] using effects
    rw [none]
    rfl

theorem processInterrupted_leaves
    (pending : before.session.remainingInterrupts ≠ 0) :
    Meets (fun now => now = before) (processInterrupted outcomes message.type)
      (fun _ => Leaves codec message before) Never := by
  apply Meets.bind (abort_later outcomes _)
  intro _
  have counted : ∀ {mid}, Later before mid → mid.closed = false → mid.session.remainingInterrupts =
      mid.queue.countP isReset + if message.type = .reset then 1 else 0 := by
    intro mid later isOpen
    obtain ⟨arrived, -, queue, count⟩ := later.arrived
    rw [count isOpen, dispatched.counted, queue, countP_append, countP_cons]
    simp only [isReset, decide_eq_true_eq]
    omega
  have stillPending : ∀ {mid}, Later before mid → mid.session.remainingInterrupts ≠ 0 := by
    intro mid later
    have := later.interrupts
    omega
  by_cases reset : message.type = .reset
  swap
  · rw [if_neg reset]
    apply Meets.modify
    rintro _ ⟨mid, later, rfl⟩
    exact dispatched.ignores later rfl rfl rfl later.state
      (fun isOpen => by simpa [reset, aborted] using counted later isOpen) (stillPending later)
  rw [if_pos reset]
  apply Meets.read
  rintro work ⟨mid, later, rfl⟩
  -- what is left of the interrupts decides
  obtain ⟨left, isLeft⟩ := Nat.exists_eq_succ_of_ne_zero (stillPending later)
  have consumed : mid.session.aborted.consumeInterrupt =
      ({ mid.session.aborted with remainingInterrupts := left }, decide (left = 0)) := by
    simp [consumeInterrupt, aborted, isLeft]
  have countedLeft : mid.closed = false → left = mid.queue.countP isReset := by
    intro isOpen
    have := counted later isOpen
    rw [if_pos reset] at this
    omega
  apply Meets.bind Meets.changed
  intro _
  simp only [consumed]
  by_cases none : left = 0
  · simp only [none]
    apply Meets.bind Meets.changed
    intro _
    apply Meets.bind Meets.changed
    intro _
    apply Meets.modify
    rintro _ ⟨_, ⟨_, ⟨_, rfl, rfl⟩, rfl⟩, rfl⟩
    simp only [consumed]
    have clears := Work.arrive_later { mid with session := { mid.session.aborted with remainingInterrupts := left } }
      outcomes.now
    exact dispatched.clears reset later countedLeft clears
  · simp only [none]
    apply Meets.modify
    rintro _ ⟨_, rfl, rfl⟩
    simp only [consumed]
    exact dispatched.ignores later rfl rfl rfl later.state countedLeft none

/-! ### Requests -/

theorem closeProtocolError_leaves
    (quiet : before.session.remainingInterrupts = 0) (illegal : before.session.accepts message.type = false)
    (notFailed : before.session.state ≠ .failed) :
    Meets (fun now => now = before) (closeProtocolError outcomes) (fun _ => Leaves codec message before) Never := by
  have notReset := (dispatched.notReset quiet).1
  apply Meets.bind (abort_later outcomes _)
  intro _
  apply Meets.modify
  rintro _ ⟨mid, later, rfl⟩
  have counted : mid.closed = false → mid.session.remainingInterrupts = mid.queue.countP isReset := by
    intro isOpen
    obtain ⟨arrived, -, queue, count⟩ := later.arrived
    rw [count isOpen, quiet, queue, countP_append, (dispatched.notReset quiet).2]
  have base : Base message.type before { mid with session := mid.session.aborted } := dispatched.base later counted
  refine ⟨base.of_same rfl rfl rfl rfl rfl rfl, live_of_none rfl rfl, fun _ => rfl,
    fun _ _ => ⟨by simp [aborted], by simp [aborted]⟩, fun _ => ⟨[], ?_, ?_, ?_, ?_, ?_, ?_⟩⟩
  · simpa using later.posted
  · rw [illegal]
    nofun
  · rintro ⟨_, mem, _⟩
    cases mem
  · exact fun failed => absurd failed notFailed
  · exact fun _ _ records _ none => absurd none.symm (concat_ne_nil _ records)
  · exact fun reset => absurd reset notReset

theorem processRecoverableState_leaves
    (quiet : before.session.remainingInterrupts = 0) (failed : before.session.state = .failed) :
    Meets (fun now => now = before) (processRecoverableState outcomes message.type)
      (fun _ => Leaves codec message before) Never := by
  have notReset := (dispatched.notReset quiet).1
  have request : isSessionRequest message.type = true := by
    cases isType : message.type with
    | reset => exact absurd isType notReset
    | _ => rfl
  unfold processRecoverableState
  rw [if_pos request]
  apply Meets.modify
  rintro _ rfl
  have serving : Serving codec message.type _ _ _ := (dispatched.serves quiet).1
  refine ⟨serving.toBase.post _, ?_, by simp [dispatched.packed], fun _ _ => ?_, fun stillOpen => ?_⟩
  · rw [postResponse_session]
    exact serving.live.of_same (by simp) (by simp) (by simp)
  · simpa using dispatched.matching quiet
  · refine ⟨[.ignored], by simp [Work.postResponse, dispatched.isOpen], fun _ => ⟨[], .ignored, rfl, nofun, rfl⟩,
      fun _ => by simpa using failed, fun _ _ => ⟨rfl, by simpa using failed⟩,
      fun _ _ => delivers_single nofun, fun reset => absurd reset notReset⟩

end

theorem processBoltMessage_leaves (codec : Codec) (outcomes : Outcomes) (dispatched : Dispatched message before) :
    Meets (fun now => now = before) (processBoltMessage codec outcomes message)
      (fun _ => Leaves codec message before) Never := by
  apply Meets.read
  rintro work rfl
  by_cases pending : work.session.hasInterrupt = true
  · rw [if_pos pending]
    exact processInterrupted_leaves outcomes dispatched (by simpa [hasInterrupt] using pending)
  rw [if_neg pending]
  have quiet : work.session.remainingInterrupts = 0 := by simpa [hasInterrupt] using pending
  have notReset := (dispatched.notReset quiet).1
  have serves : Serves codec message.type work.session.held work work := dispatched.serves quiet
  have matching := dispatched.matching quiet
  by_cases failed : work.session.state = .failed
  · rw [failed]
    exact processRecoverableState_leaves outcomes dispatched quiet failed
  have answers {handler : Handler Unit} (answered : Meets (Serves codec message.type work.session.held work) handler
        (fun _ => Answered codec message.type work) Never) :
      Meets (fun now => now = work) handler (fun _ => Leaves codec message work) Never :=
    answered.weaken (fun _ same => same ▸ serves) (fun _ _ answered => answered.leaves notReset failed)
      fun _ _ => id
  have refuses (illegal : work.session.accepts message.type = false) :
      Meets (fun now => now = work) (closeProtocolError outcomes) (fun _ => Leaves codec message work) Never :=
    closeProtocolError_leaves outcomes dispatched quiet illegal failed
  have noQuery (notStreaming : work.session.state ≠ .streaming) : work.session.activeQuery = none :=
    Option.not_isSome_iff_eq_none.mp fun isSome => notStreaming (matching.query.mp isSome)
  cases isState : work.session.state with
  | failed => exact absurd isState failed
  | ready =>
    simp only [processReadyState]
    split
    · exact answers (processBegin_answers outcomes _ (noQuery (by simp [isState])) (by simp_all))
    · split
      · exact answers ((failSession_answers outcomes _).given fun _ serves => serves.1.toFailing)
      · exact answers (processRoute_answers outcomes matching (by simp_all))
    · exact answers (processRun_answers outcomes _ (noQuery (by simp [isState])) (by simp_all))
    · apply refuses
      simp_all [accepts]
  | streaming =>
    have exclusive (isSome : work.session.activeTransaction.isSome) : work.session.activeQuery = none := by
      have := matching.transaction.mp isSome
      simp [isState] at this
    simp only [processStreamingState]
    split
    · exact answers (processPullOrDiscard_answers outcomes _ exclusive)
    · exact answers (processPullOrDiscard_answers outcomes _ exclusive)
    · apply refuses
      simp_all [accepts]
  | txReady =>
    simp only [processTransactionState, reduceCtorEq, false_and, if_false]
    split
    · exact answers (processRun_answers outcomes _ (noQuery (by simp [isState])) (by simp_all))
    split
    · exact answers (processCommitOrRollback_answers outcomes _ (noQuery (by simp [isState])) (by intro; simp_all))
    · apply refuses
      simp_all [accepts]
  | txStreaming =>
    have none := noQuery (by simp [isState])
    simp only [processTransactionState]
    split
    · exact answers (processRun_answers outcomes _ none (by simp_all))
    split
    · exact answers (processPullOrDiscard_answers outcomes _ fun _ => none)
    · apply refuses
      simp_all [accepts]
  | defunct =>
    apply refuses
    simp [accepts, isState, hasInterrupt, quiet]

end Message

/-! ## Whole conversations -/

theorem abort_closed {codec : Codec} (outcomes : Outcomes) {message : BoltMsgDetail} {before now : Work}
    (base : Base message.type before now) (isClosed : now.closed = true) :
    Leaves codec message before ((abortSession outcomes).outcome now).2 := by
  have later := now.arrive_later outcomes.rollback
  have stillClosed : (now.arrive outcomes.rollback).closed = true := later.closed isClosed
  have vacuous {property : Prop} (isOpen : (now.arrive outcomes.rollback).closed = false) : property := by
    rw [stillClosed] at isOpen
    cases isOpen
  exact ⟨(base.later later).of_same rfl rfl rfl rfl rfl rfl, live_of_none rfl rfl, vacuous, vacuous, vacuous⟩

theorem serve_leaves (codec : Codec) (outcomes : Outcomes) {message : BoltMsgDetail} {before : Work}
    (between : Between { before with queue := message :: before.queue }) :
    Leaves codec message before (before.serve codec outcomes message) := by
  have history : History before := by
    obtain ⟨named, kind, begun, once, finished⟩ := between.history
    exact ⟨named, kind, begun, once, finished⟩
  unfold Work.serve
  by_cases isClosed : before.closed = true
  · simp only [isClosed, if_true]
    refine abort_closed outcomes ⟨⟨[], by simp, by simp⟩, fun isOpen => ?_, id, ⟨[], by simp⟩, ?_, fun _ => .inl⟩ isClosed
    · rw [isClosed] at isOpen
      cases isOpen
    · exact history
  · have isOpen : before.closed = false := Bool.eq_false_iff.mpr isClosed
    have dispatched : Dispatched message before :=
      ⟨isOpen, between.counted isOpen, history, ⟨between.live.query, between.live.transaction⟩, between.packed isOpen,
        between.matching isOpen⟩
    have leaves : Leaves codec message before ((processBoltMessage codec outcomes message).outcome before).2 := by
      have result := processBoltMessage_leaves codec outcomes dispatched before rfl
      cases outcome : (processBoltMessage codec outcomes message).outcome before with
      | mk returned done =>
        rw [outcome] at result
        cases returned with
        | ok _ => exact result
        | error _ => exact result.elim
    simp only [isOpen, Bool.false_eq_true, if_false]
    split
    · exact abort_closed outcomes leaves.toBase ‹_›
    · exact leaves

def Exchange.Fails (exchange : Exchange) : Prop := ∃ response ∈ exchange.answer, response.isFailure

namespace Conversation

/-- What is sent: one answer for each request, in their order, and nothing but
IGNORED from a FAILURE to the next RESET. -/
structure Answers (codec : Codec) (conversation : Conversation) : Prop where
  posted : conversation.work.posted = conversation.exchanges.flatMap Exchange.answer
  answered : ∀ exchange ∈ conversation.exchanges, exchange.legal → IsAnswer exchange.answer
  failed : ∀ earlier failure between later,
    conversation.exchanges = earlier ++ failure :: (between ++ later) → failure.Fails →
    (∀ exchange ∈ between, exchange.message.type ≠ .reset) → ∀ exchange ∈ between, exchange.answer = [.ignored]
  rows : ∀ exchange ∈ conversation.exchanges, Delivers codec exchange.effects exchange.answer
  reset : ∀ exchange ∈ conversation.exchanges, exchange.message.type = .reset →
    (exchange.answer = [.success []] ∧ exchange.left.Cleared) ∨
      (exchange.answer = [.ignored] ∧ exchange.left.remainingInterrupts ≠ 0)

/-- What is committed: nothing twice, an auto-commit query behind its last row, and
an explicit transaction by COMMIT. -/
structure Commits (conversation : Conversation) : Prop where
  effects : conversation.work.effects = conversation.exchanges.flatMap Exchange.effects
  begun : ∀ transaction, Effect.commit transaction ∈ conversation.work.effects →
    ∃ explicit, Effect.begin transaction explicit ∈ conversation.work.effects
  once : (committed conversation.work.effects).Nodup
  auto : ∀ earlier transaction later,
    conversation.work.effects = earlier ++ .commit transaction :: later →
    Effect.begin transaction false ∈ conversation.work.effects → Finished transaction earlier
  explicit : ∀ exchange ∈ conversation.exchanges, ∀ transaction, Effect.commit transaction ∈ exchange.effects →
    Effect.begin transaction true ∈ conversation.work.effects → exchange.message.type = .commit

structure Conforms (codec : Codec) (conversation : Conversation) : Prop where
  order : conversation.work.received = conversation.exchanges.map Exchange.message ++ conversation.work.queue
  answers : Answers codec conversation
  state : conversation.work.session.remainingInterrupts = 0 → conversation.work.session.Matches
  commits : Commits conversation

/-- The session is in `FAILED` from a FAILURE to the next RESET. -/
def StaysFailed (conversation : Conversation) : Prop :=
  ∀ earlier failure later, conversation.exchanges = earlier ++ failure :: later → failure.Fails →
    (∀ exchange ∈ later, exchange.message.type ≠ .reset) → conversation.work.session.state = .failed

structure Sound (codec : Codec) (conversation : Conversation) : Prop where
  between : Between conversation.work
  order : conversation.work.received = conversation.exchanges.map Exchange.message ++ conversation.work.queue
  effects : conversation.work.effects = conversation.exchanges.flatMap Exchange.effects
  commits : ∀ exchange ∈ conversation.exchanges, ∀ transaction, Effect.commit transaction ∈ exchange.effects →
    Effect.begin transaction false ∈ conversation.work.effects ∨ exchange.message.type = .commit
  answers : conversation.work.closed = false → Answers codec conversation
  staysFailed : conversation.work.closed = false → StaysFailed conversation

variable {codec : Codec} {conversation : Conversation}

theorem Sound.conforms (sound : Sound codec conversation)
    (isOpen : conversation.work.closed = false) : Conforms codec conversation := by
  have history := sound.between.history
  refine ⟨sound.order, sound.answers isOpen, sound.between.matching isOpen,
    sound.effects, fun transaction mem => history.begun transaction (mem_committed.mpr mem), history.once,
    history.finished, ?_⟩
  intro exchange mem transaction commits begun
  rcases sound.commits exchange mem transaction commits with auto | isCommit
  · cases history.kind transaction true false begun auto
  · exact isCommit

theorem Sound.arrive (sound : Sound codec conversation) {work : Work}
    (later : Later conversation.work work) : Sound codec { conversation with work } := by
  obtain ⟨arrived, received, queue, count⟩ := later.arrived
  have between := sound.between
  constructor
  · refine ⟨fun isOpen => ?_, between.history.later later, ?_,
      fun isOpen => later.ps ▸ between.packed (later.wasOpen isOpen), fun isOpen none => ?_⟩
    · rw [count isOpen, between.counted (later.wasOpen isOpen), queue, countP_append]
    · have sameHeld : work.session.held = conversation.work.session.held := by
        unfold held
        rw [later.query]
      rw [sameHeld]
      exact between.live.later later
    · have none : work.session.remainingInterrupts = 0 := none
      have := later.interrupts
      obtain ⟨transaction, query⟩ := between.matching (later.wasOpen isOpen) (by omega)
      exact ⟨by rwa [later.transaction, later.state], by rwa [later.query, later.state]⟩
  · simp [received, queue, sound.order]
  · exact later.effects.trans sound.effects
  · simpa only [later.effects] using sound.commits
  · intro isOpen
    obtain ⟨posted, answered, failed, rows, reset⟩ := sound.answers (later.wasOpen isOpen)
    exact ⟨later.posted.trans posted, answered, failed, rows, reset⟩
  · intro isOpen earlier failure rest split fails noReset
    exact later.state.trans (sound.staysFailed (later.wasOpen isOpen) earlier failure rest split fails noReset)

section Serve

variable {message : BoltMsgDetail} {before work : Work} {exchanges : List Exchange}

variable {answer : List Response}

/-- From a FAILURE on, a request that is no RESET is ignored, and the session
stays in its state. -/
theorem StaysFailed.serve (wasFailed : StaysFailed ⟨before, exchanges⟩)
    (served : Served codec message before work answer) (isAnswer : (exchangeOf message before work).answer = answer) :
    StaysFailed ⟨work, exchanges ++ [exchangeOf message before work]⟩ := by
  intro earlier failure later split fails noReset
  rcases split_concat split with ⟨rfl, rfl, rfl⟩ | ⟨rest, rfl, old⟩
  · apply served.failure
    rw [← isAnswer]
    exact fails
  · have noneBefore := fun exchange mem => noReset exchange (mem_append_left _ mem)
    exact (served.failed (wasFailed earlier failure rest old fails noneBefore)
      (noReset (exchangeOf message before work) (by simp))).2

theorem Answers.serve (answers : Answers codec ⟨before, exchanges⟩)
    (served : Served codec message before work answer) (isAnswer : (exchangeOf message before work).answer = answer)
    (effects : work.effects = before.effects ++ (exchangeOf message before work).effects)
    (wasFailed : StaysFailed ⟨before, exchanges⟩) :
    Answers codec ⟨work, exchanges ++ [exchangeOf message before work]⟩ := by
  constructor
  · simp only [served.posted, flatMap_append, flatMap_singleton, isAnswer]
    rw [← answers.posted]
  · refine forall_mem_snoc answers.answered fun legal => ?_
    rw [isAnswer]
    exact served.answered legal
  · intro earlier failure between later split fails noReset exchange mem
    rcases eq_nil_or_concat later with rfl | ⟨others, final, rfl⟩
    · rw [append_nil] at split
      rcases split_concat split with ⟨rfl, -, -⟩ | ⟨rest, rfl, old⟩
      · cases mem
      have noneBefore := fun exchange mem => noReset exchange (mem_append_left _ mem)
      rcases mem_append.mp mem with inRest | isLast
      · exact answers.failed earlier failure rest [] (by simpa using old) fails noneBefore exchange inRest
      rw [mem_singleton.mp isLast, isAnswer]
      exact (served.failed (wasFailed earlier failure rest old fails noneBefore)
        (noReset (exchangeOf message before work) (by simp))).1
    · rw [concat_eq_append, ← append_assoc, ← cons_append, ← append_assoc] at split
      obtain ⟨old, -⟩ := append_inj' split rfl
      exact answers.failed earlier failure between others old fails noReset exchange mem
  · refine forall_mem_snoc answers.rows ?_
    rw [isAnswer]
    exact served.rows _ effects
  · refine forall_mem_snoc answers.reset fun isReset => ?_
    rw [isAnswer]
    exact served.reset isReset

theorem Sound.serve (sound : Sound codec ⟨{ before with queue := message :: before.queue }, exchanges⟩)
    (leaves : Leaves codec message before work) :
    Sound codec ⟨work, exchanges ++ [exchangeOf message before work]⟩ := by
  obtain ⟨added, effects⟩ := leaves.effects
  have isAdded : (exchangeOf message before work).effects = added := by simp [exchangeOf, effects]
  have wasOpen (isOpen : work.closed = false) : before.closed = false := by
    cases isClosed : before.closed with
    | false => rfl
    | true => rw [leaves.closed isClosed] at isOpen; cases isOpen
  constructor
  · exact ⟨leaves.counted, leaves.history, leaves.live, leaves.packed, leaves.matching⟩
  · obtain ⟨arrived, received, queue⟩ := leaves.waiting
    have order := sound.order
    simp only at order
    simp [received, queue, order, exchangeOf]
  · have old := sound.effects
    simp only at old
    simp [effects, isAdded, old]
  · refine forall_mem_snoc (fun exchange old transaction commits => ?_) fun transaction commits => ?_
    · rcases sound.commits exchange old transaction commits with begun | isCommit
      · exact .inl (effects ▸ mem_append_left _ begun)
      · exact .inr isCommit
    · rw [isAdded] at commits
      have inWork : transaction ∈ committed work.effects := by
        rw [effects, committed_append]
        exact mem_append_right _ (mem_committed.mpr commits)
      rcases leaves.commits transaction inWork with wasBefore | begun | isCommit
      · have once := leaves.history.once
        rw [effects, committed_append] at once
        exact absurd (mem_committed.mpr commits) fun isThere =>
          (nodup_append.mp once).2.2 transaction wasBefore transaction isThere rfl
      · exact .inl begun
      · exact .inr isCommit
  · intro isOpen
    obtain ⟨answer, served⟩ := leaves.served isOpen
    have isAnswer : (exchangeOf message before work).answer = answer := by simp [exchangeOf, served.posted]
    have answers := sound.answers (wasOpen isOpen)
    exact Answers.serve ⟨answers.posted, answers.answered, answers.failed, answers.rows, answers.reset⟩ served isAnswer
      (by rw [isAdded, effects]) (sound.staysFailed (wasOpen isOpen))
  · intro isOpen
    obtain ⟨answer, served⟩ := leaves.served isOpen
    have isAnswer : (exchangeOf message before work).answer = answer := by simp [exchangeOf, served.posted]
    exact StaysFailed.serve (sound.staysFailed (wasOpen isOpen)) served isAnswer

end Serve

theorem Sound.next {next : Conversation} (sound : Sound codec conversation)
    {event : SessionEvent} (taken : conversation.next codec event = some next) : Sound codec next := by
  cases event with
  | arrive arrivals =>
    cases taken
    exact sound.arrive (conversation.work.arrive_later arrivals)
  | serve outcomes =>
    simp only [Conversation.next] at taken
    cases isQueue : conversation.work.queue with
    | nil =>
      rw [isQueue] at taken
      cases taken
    | cons message queue =>
      rw [isQueue] at taken
      cases taken
      have sound : Sound codec ⟨{ ({ conversation.work with queue } : Work) with queue := message :: queue },
          conversation.exchanges⟩ := by
        rw [← isQueue]
        exact sound
      exact sound.serve (serve_leaves codec outcomes sound.between)

theorem sound_initial (minorVersion : Nat) (routingEnabled : Bool) : Sound codec (initial minorVersion routingEnabled) := by
  have between : Between (initial minorVersion routingEnabled).work := by
    refine ⟨fun _ => rfl, ⟨?_, ?_, ?_, ?_, ?_⟩, live_of_none rfl rfl, ?_, fun _ _ => ⟨?_, ?_⟩⟩
    all_goals simp [initial, committed]
  refine ⟨between, ?_, ?_, ?_, fun _ => ⟨?_, ?_, ?_, ?_, ?_⟩, ?_⟩
  all_goals simp [initial, StaysFailed]

/-- Whatever the client sends and the transactions and cursors do, a session
conforms while its connection is open. -/
theorem conforms_of_runs {codec : Codec} {minorVersion : Nat} {routingEnabled : Bool} {events : List SessionEvent}
    {conversation : Conversation}
    (runs : Runs (next codec) anyAction (initial minorVersion routingEnabled) events conversation)
    (isOpen : conversation.work.closed = false) : Conforms codec conversation := by
  have sound : Sound codec conversation :=
    Runs.invariant runs (Sound codec) (sound_initial minorVersion routingEnabled)
      fun _ _ _ sound _ taken => sound.next taken
  exact sound.conforms isOpen

def emptyRecords : Codec where
  convertParameter _ := .ok .null
  convertRow _ := .ok []
  size _ := 0

def quiet : Arrivals := ⟨[], false⟩

def succeeds {Value : Type} (value : Value) : Call Value := ⟨quiet, .ok value⟩

def interruptedCursor : QueryResultCursor where
  columns := []
  rows := [succeeds [], ⟨⟨[⟨.reset, []⟩], false⟩, .ok []⟩]
  finish := succeeds ()

def ordinary : Outcomes where
  start := quiet
  openGraph := succeeds ()
  raftStatus := succeeds none
  beginTransaction := succeeds ()
  execute := succeeds interruptedCursor
  commit := succeeds ()
  rollback := quiet
  now := quiet
  route := succeeds []

/-- A query of one row that commits, and one whose rows are pulled until a RESET interrupts it. -/
def interruptedPull : List SessionEvent :=
  let query : SessionEvent :=
    .arrive ⟨[⟨.run, [.string "", .map [], .map []]⟩, ⟨.pullN, [.map [("n", .int (-1))]]⟩], false⟩
  [query, .serve { ordinary with execute := succeeds ⟨[], [succeeds []], succeeds ()⟩ }, .serve ordinary,
    query, .serve ordinary, .serve ordinary, .serve ordinary]

theorem conforms_of_runs_interrupted : ∃ conversation,
    Runs (next emptyRecords) anyAction (initial 4 false) interruptedPull conversation ∧
      conversation.work.closed = false ∧ Conforms emptyRecords conversation ∧
      conversation.exchanges.map Exchange.answer = [[.success [("fields", .list [])]], [.record [], .success []],
        [.success [("fields", .list [])]], [.ignored], [.success []]] ∧
      committed conversation.work.effects = [0] := by
  obtain ⟨conversation, isRun⟩ : ∃ conversation,
      execute (next emptyRecords) anyAction (initial 4 false) interruptedPull = some conversation := ⟨_, rfl⟩
  have isOpen : conversation.work.closed = false := by
    cases isRun
    rfl
  have runs : Runs (next emptyRecords) anyAction (initial 4 false) interruptedPull conversation := runs_of_execute isRun
  refine ⟨conversation, runs, isOpen, conforms_of_runs runs isOpen, ?_⟩
  cases isRun
  exact ⟨rfl, rfl⟩

end Conversation

end RocksGraph.Bolt
