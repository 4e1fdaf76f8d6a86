import RocksGraph.Bolt.Ledger

/-! What every handler leaves behind.

A handler is in one of few conditions between its steps: it serves the request,
with the session as it found it, or it has failed, or it has ignored the request,
or it has answered it. The lemmas follow the steps; the last ones are the handlers'. -/

set_option autoImplicit false

namespace RocksGraph.Bolt

open Foundation List

def isReset (message : BoltMsgDetail) : Bool := message.type = .reset

structure BoltSession.Matches (session : BoltSession) : Prop where
  transaction : session.activeTransaction.isSome ↔ session.state = .txReady ∨ session.state = .txStreaming
  query : session.activeQuery.isSome ↔ session.state = .streaming

/-- What holds throughout a request of the given type. Every waiting RESET has its
interrupt. -/
structure Base (type : BoltMsg) (before now : Work) : Prop where
  waiting : ∃ arrived, now.received = before.received ++ arrived ∧ now.queue = before.queue ++ arrived
  counted : now.closed = false → now.session.remainingInterrupts = now.queue.countP isReset
  closed : before.closed = true → now.closed = true
  effects : ∃ added, now.effects = before.effects ++ added
  history : History now
  commits : ∀ transaction ∈ committed now.effects, transaction ∈ committed before.effects ∨
    Effect.begin transaction false ∈ now.effects ∨ type = .commit

/-- Records may have been sent, but no summary. -/
def Unanswered (before now : Work) : Prop :=
  now.closed = false → ∃ records, now.posted = before.posted ++ records ∧ ∀ response ∈ records, response.isRecord

structure Failing (type : BoltMsg) (before now : Work) : Prop extends Base type before now where
  unanswered : Unanswered before now

structure Unchanged (held : List Row) (before now : Work) : Prop where
  query : now.session.activeQuery = before.session.activeQuery
  transaction : now.session.activeTransaction = before.session.activeTransaction
  state : now.session.state = before.session.state
  live : Live held now

/-- Every row that the request has delivered is sent or packed, in this order. Only PULL packs. -/
structure Sending (codec : Codec) (type : BoltMsg) (before now : Work) : Prop extends Failing type before now where
  rows : now.closed = false → ∃ added, now.effects = before.effects ++ added ∧
    now.posted ++ now.session.ps = before.posted ++ delivered codec added
  pulled : now.closed = false → type ≠ .pullN → now.session.ps = []

structure Serving (codec : Codec) (type : BoltMsg) (held : List Row) (before now : Work) : Prop
    extends Sending codec type before now, Unchanged held before now

def IsAnswer (answer : List Response) : Prop :=
  ∃ records summary, answer = records ++ [summary] ∧ (∀ response ∈ records, response.isRecord) ∧
    summary.isRecord = false

/-- If it succeeds, the records are those of the rows that were delivered. -/
def Delivers (codec : Codec) (effects : List Effect) (answer : List Response) : Prop :=
  ∀ records metadata, answer = records ++ [.success metadata] → records = delivered codec effects

structure Reply (codec : Codec) (before now : Work) (answer : List Response) : Prop where
  posted : now.posted = before.posted ++ answer
  isAnswer : IsAnswer answer
  failure : (∃ response ∈ answer, response.isFailure) → now.session.state = .failed
  rows : ∀ added, now.effects = before.effects ++ added → Delivers codec added answer

structure Ignored (type : BoltMsg) (held : List Row) (before now : Work) : Prop
    extends Base type before now, Unchanged held before now where
  interrupted : now.closed = false → now.session.remainingInterrupts ≠ 0
  ignored : now.closed = false → ∃ records, now.posted = before.posted ++ (records ++ [.ignored]) ∧
    ∀ response ∈ records, response.isRecord
  packed : now.closed = false → type ≠ .pullN → now.session.ps = []

structure Answered (codec : Codec) (type : BoltMsg) (before now : Work) : Prop extends Base type before now where
  live : Live now.session.held now
  packed : now.closed = false → now.session.ps = []
  answer : now.closed = false → ∃ answer, Reply codec before now answer
  matching : now.closed = false → now.session.remainingInterrupts = 0 → now.session.Matches

structure Later (now next : Work) : Prop where
  arrived : ∃ arrived, next.received = now.received ++ arrived ∧ next.queue = now.queue ++ arrived ∧
    (next.closed = false →
      next.session.remainingInterrupts = now.session.remainingInterrupts + arrived.countP isReset)
  interrupts : now.session.remainingInterrupts ≤ next.session.remainingInterrupts
  closed : now.closed = true → next.closed = true
  query : next.session.activeQuery = now.session.activeQuery
  transaction : next.session.activeTransaction = now.session.activeTransaction
  state : next.session.state = now.session.state
  ps : next.session.ps = now.session.ps
  posted : next.posted = now.posted
  effects : next.effects = now.effects
  nextTransaction : next.nextTransaction = now.nextTransaction

variable {codec : Codec} {type : BoltMsg} {held : List Row} {before now next : Work}

theorem Later.wasOpen (later : Later now next) (stillOpen : next.closed = false) : now.closed = false := by
  cases isClosed : now.closed with
  | false => rfl
  | true => rw [later.closed isClosed] at stillOpen; cases stillOpen

theorem Later.refl (work : Work) : Later work work := by
  constructor <;> simp

theorem Later.trans {first second third : Work} (earlier : Later first second) (later : Later second third) :
    Later first third := by
  obtain ⟨arrived, received, queue, count⟩ := earlier.arrived
  obtain ⟨arrived', received', queue', count'⟩ := later.arrived
  constructor
  · refine ⟨arrived ++ arrived', ?_, ?_, fun stillOpen => ?_⟩
    · rw [received', received, append_assoc]
    · rw [queue', queue, append_assoc]
    · rw [count' stillOpen, count (later.wasOpen stillOpen), countP_append, add_assoc]
  · exact le_trans earlier.interrupts later.interrupts
  · exact fun isClosed => later.closed (earlier.closed isClosed)
  all_goals simp [earlier.query, later.query, earlier.transaction, later.transaction, earlier.state, later.state,
    earlier.ps, later.ps, earlier.posted, later.posted, earlier.effects, later.effects,
    earlier.nextTransaction, later.nextTransaction]

theorem Work.receive_later (work : Work) (message : BoltMsgDetail) : Later work (work.receive message) := by
  by_cases reset : message.type = .reset
  · constructor <;> simp [receive, reset, isReset, BoltSession.requestInterrupt]
  · constructor <;> simp [receive, reset, isReset]

theorem Work.close_later (work : Work) : Later work work.close := by
  constructor <;> simp [close, BoltSession.requestInterrupt]

theorem Work.arrive_later (work : Work) (arrivals : Arrivals) : Later work (work.arrive arrivals) := by
  have received (messages : List BoltMsgDetail) (work : Work) : Later work (messages.foldl receive work) := by
    induction messages generalizing work with
    | nil => exact .refl work
    | cons message rest ih => exact (work.receive_later message).trans (ih _)
  unfold arrive
  split
  · exact (received arrivals.messages work).trans (Work.close_later _)
  · exact received arrivals.messages work

theorem History.later (history : History now) (later : Later now next) : History next := by
  obtain ⟨named, kind, begun, once, finished⟩ := history
  constructor
  all_goals simp only [later.effects, later.nextTransaction]; assumption

theorem Live.later (live : Live held now) (later : Later now next) : Live held next := by
  obtain ⟨query, transaction⟩ := live
  constructor
  all_goals simp only [later.effects, later.query, later.transaction]; assumption

theorem Base.later (base : Base type before now) (later : Later now next) : Base type before next := by
  obtain ⟨arrived, received, queue⟩ := base.waiting
  obtain ⟨arrived', received', queue', count⟩ := later.arrived
  constructor
  · exact ⟨arrived ++ arrived', by simp [received', received], by simp [queue', queue]⟩
  · intro stillOpen
    rw [count stillOpen, base.counted (later.wasOpen stillOpen), queue', countP_append]
  · exact fun isClosed => later.closed (base.closed isClosed)
  · simpa only [later.effects] using base.effects
  · exact base.history.later later
  · simpa only [later.effects] using base.commits

theorem Failing.later (failing : Failing type before now) (later : Later now next) : Failing type before next := by
  refine ⟨failing.toBase.later later, fun stillOpen => ?_⟩
  rw [later.posted]
  exact failing.unanswered (later.wasOpen stillOpen)

theorem Unchanged.later (unchanged : Unchanged held before now) (later : Later now next) :
    Unchanged held before next :=
  ⟨later.query.trans unchanged.query, later.transaction.trans unchanged.transaction,
    later.state.trans unchanged.state, unchanged.live.later later⟩

theorem Sending.later (sending : Sending codec type before now) (later : Later now next) :
    Sending codec type before next := by
  refine ⟨sending.toFailing.later later, fun stillOpen => ?_, fun stillOpen => ?_⟩
  · rw [later.posted, later.ps, later.effects]
    exact sending.rows (later.wasOpen stillOpen)
  · rw [later.ps]
    exact sending.pulled (later.wasOpen stillOpen)

theorem Serving.later (serving : Serving codec type held before now) (later : Later now next) :
    Serving codec type held before next :=
  ⟨serving.toSending.later later, serving.toUnchanged.later later⟩

def Never (_ : Failure) (_ : Work) : Prop := False

variable {thrown : Failure → Work → Prop}

section Steps

variable {Value : Type}

theorem arrive_later (arrivals : Arrivals) (condition : Work → Prop)
    (kept : ∀ now next, condition now → Later now next → condition next) (thrown : Failure → Work → Prop) :
    Meets condition (arrive arrivals) (fun _ => condition) thrown :=
  Meets.modify fun work holds => kept _ _ holds (work.arrive_later arrivals)

theorem perform_later (call : Call Value) (condition : Work → Prop)
    (kept : ∀ now next, condition now → Later now next → condition next) :
    Meets condition (perform call) (fun _ => condition) (fun _ => condition) := by
  apply Meets.bind (arrive_later call.meanwhile condition kept _)
  intro _
  cases call.result with
  | ok value => exact Meets.pure fun _ => id
  | error failure => exact Meets.throw fun _ => id

def Knows (codec : Codec) (known : List Effect → Prop) (type : BoltMsg) (held : List Row) (before now : Work) : Prop :=
  Serving codec type held before now ∧ known now.effects

variable {known : List Effect → Prop}

theorem Knows.later (knows : Knows codec known type held before now) (later : Later now next) :
    Knows codec known type held before next :=
  ⟨knows.1.later later, later.effects ▸ knows.2⟩

theorem arrive_knows (arrivals : Arrivals) :
    Meets (Knows codec known type held before) (arrive arrivals) (fun _ => Knows codec known type held before)
      (fun _ => Failing type before) :=
  arrive_later arrivals _ (fun _ _ => Knows.later) _

theorem perform_knows (call : Call Value) :
    Meets (Knows codec known type held before) (perform call) (fun _ => Knows codec known type held before)
      (fun _ => Failing type before) :=
  (perform_later call _ fun _ _ => Knows.later).weaken (fun _ => id) (fun _ _ => id)
    fun _ _ knows => knows.1.toFailing

theorem require_knows (result : Except Failure Value) :
    Meets (Knows codec known type held before) (require result) (fun _ => Knows codec known type held before)
      (fun _ => Failing type before) := by
  cases result with
  | ok value => exact Meets.pure fun _ => id
  | error failure => exact Meets.throw fun _ knows => knows.1.toFailing

theorem Base.of_same (base : Base type before now) (received : next.received = now.received)
    (queue : next.queue = now.queue) (closed : next.closed = now.closed)
    (interrupts : next.session.remainingInterrupts = now.session.remainingInterrupts)
    (effects : next.effects = now.effects) (nextTransaction : next.nextTransaction = now.nextTransaction) :
    Base type before next := by
  obtain ⟨waiting, counted, wasClosed, added, ⟨named, kind, begun, once, finished⟩, commits⟩ := base
  constructor
  case history =>
    constructor
    all_goals simp only [effects, nextTransaction]; assumption
  all_goals simp only [received, queue, closed, interrupts, effects]; assumption

theorem Base.emit (base : Base type before now) {effect : Effect} {count : Nat}
    (history : History { now with nextTransaction := count, effects := now.effects ++ [effect] })
    (allowed : ∀ transaction, effect = .commit transaction →
      Effect.begin transaction false ∈ now.effects ∨ type = .commit) :
    Base type before { now with nextTransaction := count, effects := now.effects ++ [effect] } := by
  obtain ⟨added, effects⟩ := base.effects
  refine ⟨base.waiting, base.counted, base.closed, ⟨added ++ [effect], by simp [effects]⟩, history,
    fun found mem => ?_⟩
  rcases mem_append.mp (mem_committed.mp mem) with old | isNew
  · rcases base.commits found (mem_committed.mpr old) with wasBefore | begun | isCommit
    · exact .inl wasBefore
    · exact .inr (.inl (mem_append_left _ begun))
    · exact .inr (.inr isCommit)
  · exact .inr ((allowed found (mem_singleton.mp isNew).symm).imp_left (mem_append_left _))

section

variable (sending : Sending codec type before now)
include sending

theorem Sending.setSession {session : BoltSession}
    (interrupts : session.remainingInterrupts = now.session.remainingInterrupts) (ps : session.ps = now.session.ps) :
    Sending codec type before { now with session } := by
  refine ⟨⟨sending.toBase.of_same rfl rfl rfl interrupts rfl rfl, sending.unanswered⟩, ?_, ?_⟩
  all_goals simp only [ps]
  · exact sending.rows
  · exact sending.pulled

theorem Sending.emit {effect : Effect} {count : Nat}
    (base : Base type before { now with nextTransaction := count, effects := now.effects ++ [effect] })
    (quiet : delivered codec [effect] = []) :
    Sending codec type before { now with nextTransaction := count, effects := now.effects ++ [effect] } := by
  refine ⟨⟨base, sending.unanswered⟩, fun isOpen => ?_, sending.pulled⟩
  obtain ⟨added, effects, rows⟩ := sending.rows isOpen
  exact ⟨added ++ [effect], by simp [effects], by rw [delivered_append, quiet, append_nil, rows]⟩

theorem Sending.deliver (isPull : type = .pullN) {transaction : Option Nat} {row : Row} {record : List Any}
    (base : Base type before (now.emitted (.deliver transaction row))) (isRecord : codec.convertRow row = .ok record) :
    Sending codec type before { now.emitted (.deliver transaction row) with
      session := { now.session with ps := now.session.ps ++ [.record record] } } := by
  refine ⟨⟨base.of_same rfl rfl rfl rfl rfl rfl, sending.unanswered⟩, fun isOpen => ?_,
    fun _ notPull => absurd isPull notPull⟩
  obtain ⟨added, effects, rows⟩ := sending.rows isOpen
  refine ⟨added ++ [.deliver transaction row], by simp [Work.emitted, effects], ?_⟩
  have last : delivered codec [.deliver transaction row] = [.record record] := by simp [delivered, isRecord, Except.toOption]
  rw [delivered_append, last, ← append_assoc, ← append_assoc, ← rows]
  rfl

end

variable (work : Work) (responses : List Response)

theorem postResponse_eq :
    work.postResponse responses = { work with posted := (work.postResponse responses).posted } := by
  unfold Work.postResponse
  split <;> rfl

@[simp] theorem postResponse_closed :
    (work.postResponse responses).closed = work.closed := by rw [postResponse_eq]

@[simp] theorem postResponse_session :
    (work.postResponse responses).session = work.session := by rw [postResponse_eq]

@[simp] theorem postResponse_effects :
    (work.postResponse responses).effects = work.effects := by rw [postResponse_eq]

theorem Base.post (base : Base type before now) (responses : List Response) :
    Base type before (now.postResponse responses) := by
  rw [postResponse_eq]
  exact base.of_same rfl rfl rfl rfl rfl rfl

theorem Live.of_same (live : Live held now) (query : next.session.activeQuery = now.session.activeQuery)
    (transaction : next.session.activeTransaction = now.session.activeTransaction)
    (effects : next.effects = now.effects) : Live held next := by
  obtain ⟨ofQuery, ofTransaction⟩ := live
  constructor
  all_goals simp only [effects, query, transaction]; assumption

theorem ignore_meets {condition ignored : Work → Prop}
    (closed : ∀ now, condition now → now.closed = true → ignored now)
    (interrupted : ∀ now, condition now → now.closed = false → now.session.remainingInterrupts ≠ 0 →
      ignored (now.postResponse [.ignored])) :
    Meets condition ignoreInterruptedOrClosedRequest
      (fun isIgnored now => if isIgnored then ignored now else condition now) thrown := by
  apply Meets.bind Meets.get
  intro work
  by_cases isClosed : work.closed = true
  · rw [if_pos isClosed]
    apply Meets.pure
    rintro now ⟨rfl, holds⟩
    exact closed _ holds isClosed
  rw [if_neg isClosed]
  by_cases pending : work.session.hasInterrupt = true
  · rw [if_pos pending]
    have posted : Meets (fun now => work = now ∧ condition now) postIgnored (fun _ => ignored) thrown := by
      apply Meets.modify
      rintro now ⟨rfl, holds⟩
      exact interrupted _ holds (Bool.eq_false_iff.mpr isClosed) (by simpa [BoltSession.hasInterrupt] using pending)
    exact Meets.bind posted fun _ => Meets.pure fun now holds => by simpa using holds
  · rw [if_neg pending]
    exact Meets.pure fun now holds => by simpa using holds.2

end Steps

/-! ## Aborts and failures -/

structure Aborted (type : BoltMsg) (before now : Work) : Prop extends Failing type before now where
  query : now.session.activeQuery = none
  transaction : now.session.activeTransaction = none
  packed : now.session.ps = []

variable (outcomes : Outcomes)

theorem abort_failing (thrown : Failure → Work → Prop) :
    Meets (Failing type before) (abortSession outcomes) (fun _ => Aborted type before) thrown := by
  apply Meets.bind (arrive_later outcomes.rollback _ (fun _ _ => Failing.later) thrown)
  intro _
  apply Meets.modify
  intro now failing
  exact ⟨⟨failing.toBase.of_same rfl rfl rfl rfl rfl rfl, failing.unanswered⟩, rfl, rfl, rfl⟩

theorem live_of_noQuery (query : now.session.activeQuery = none) (transaction : ∀ active found,
      now.session.activeTransaction = some active → active.transaction = some found →
      Effect.begin found true ∈ now.effects ∧ found ∉ committed now.effects) : Live held now := by
  refine ⟨fun active _ isActive => ?_, transaction⟩
  rw [query] at isActive
  cases isActive

theorem live_of_none (query : now.session.activeQuery = none) (transaction : now.session.activeTransaction = none) :
    Live held now := by
  refine live_of_noQuery query fun active _ isActive => ?_
  rw [transaction] at isActive
  cases isActive

variable {summary : Response}

theorem isAnswer_append {records : List Response} (areRecords : ∀ response ∈ records, response.isRecord)
    (isSummary : summary.isRecord = false) : IsAnswer (records ++ [summary]) :=
  ⟨records, summary, rfl, areRecords, isSummary⟩

theorem delivers_concat {records : List Response} {effects : List Effect}
    (rows : ∀ metadata, summary = .success metadata → records = delivered codec effects) :
    Delivers codec effects (records ++ [summary]) := by
  intro others metadata same
  obtain ⟨rfl, last⟩ := append_inj' same rfl
  exact rows metadata (singleton_inj.mp last)

theorem delivers_single {effects : List Effect}
    (none : ∀ metadata, summary = .success metadata → [] = delivered codec effects) : Delivers codec effects [summary] :=
  delivers_concat none

theorem reply_of_posted {records : List Response} (isSummary : summary.isRecord = false)
    (succeeds : summary.isFailure = false) (posted : now.posted = before.posted ++ (records ++ [summary]))
    (areRecords : ∀ response ∈ records, response.isRecord)
    (rows : ∀ added, now.effects = before.effects ++ added → ∀ metadata, summary = .success metadata →
      records = delivered codec added) : ∃ answer, Reply codec before now answer := by
  refine ⟨_, posted, isAnswer_append areRecords isSummary, ?_, fun added effects => delivers_concat (rows added effects)⟩
  rintro ⟨response, mem, isFailure⟩
  rcases mem_append.mp mem with inRecords | isLast
  · have := areRecords response inRecords
    cases response <;> simp_all [Response.isRecord, Response.isFailure]
  · rw [mem_singleton.mp isLast, succeeds] at isFailure
    cases isFailure

theorem reply_of_ignored (sent : ∃ records, now.posted = before.posted ++ (records ++ [.ignored]) ∧
    ∀ response ∈ records, response.isRecord) : ∃ answer, Reply codec before now answer := by
  obtain ⟨records, posted, areRecords⟩ := sent
  exact reply_of_posted rfl rfl posted areRecords nofun

section

variable (sending : Sending codec type before now) (metadata : Metadata)
include sending

theorem Sending.reply (isOpen : now.closed = false)
    (posted : next.posted = now.posted ++ (now.session.ps ++ [.success metadata]))
    (effects : next.effects = now.effects) : ∃ answer, Reply codec before next answer := by
  obtain ⟨added, isAdded, rows⟩ := sending.rows isOpen
  rw [← append_assoc, rows, append_assoc] at posted
  refine reply_of_posted rfl rfl posted (delivered_isRecord codec added) fun others same _ _ => ?_
  rw [append_cancel_left (same.symm.trans (effects.trans isAdded))]

theorem Sending.succeeds (notPull : type ≠ .pullN) (live : Live now.session.held now) (matching : now.session.Matches) :
    Answered codec type before (now.postResponse [.success metadata]) := by
  refine ⟨sending.toBase.post _, ?_, by simpa using fun isOpen => sending.pulled isOpen notPull, fun stillOpen => ?_,
    fun _ _ => by simpa using matching⟩
  · rw [postResponse_session]
    exact live.of_same (by simp) (by simp) (by simp)
  · have wasOpen : now.closed = false := by simpa using stillOpen
    exact sending.reply metadata wasOpen
      (by simp [Work.postResponse, wasOpen, sending.pulled wasOpen notPull]) (by simp)

end

theorem Ignored.answered (ignored : Ignored type held before now) (sameHeld : held = before.session.held)
    (notPull : type ≠ .pullN) : Answered codec type before now := by
  have isHeld : now.session.held = held := by
    unfold BoltSession.held
    rw [ignored.query, sameHeld]
    rfl
  refine ⟨ignored.toBase, isHeld ▸ ignored.live, fun stillOpen => ignored.packed stillOpen notPull, fun stillOpen => ?_,
    fun stillOpen none => ?_⟩
  · exact reply_of_ignored (ignored.ignored stillOpen)
  · exact absurd none (ignored.interrupted stillOpen)

theorem abort_ignored (thrown : Failure → Work → Prop) :
    Meets (Ignored type held before) (abortSession outcomes) (fun _ => Answered codec type before) thrown := by
  have kept : ∀ now next, Ignored type held before now → Later now next → Ignored type held before next := by
    intro now next ignored later
    refine ⟨ignored.toBase.later later, ignored.toUnchanged.later later, fun stillOpen => ?_, fun stillOpen => ?_,
      fun stillOpen => later.ps ▸ ignored.packed (later.wasOpen stillOpen)⟩
    · have := ignored.interrupted (later.wasOpen stillOpen)
      have := later.interrupts
      omega
    · rw [later.posted]
      exact ignored.ignored (later.wasOpen stillOpen)
  apply Meets.bind (arrive_later outcomes.rollback _ kept thrown)
  intro _
  apply Meets.modify
  intro now ignored
  refine ⟨ignored.toBase.of_same rfl rfl rfl rfl rfl rfl, live_of_none rfl rfl, fun _ => rfl, fun stillOpen => ?_,
    fun stillOpen none => absurd none (ignored.interrupted stillOpen)⟩
  exact reply_of_ignored (ignored.ignored stillOpen)

theorem Unanswered.post (unanswered : Unanswered before now)
    (stillOpen : (now.postResponse [summary]).closed = false) :
    ∃ records, (now.postResponse [summary]).posted = before.posted ++ (records ++ [summary]) ∧
      ∀ response ∈ records, response.isRecord := by
  rw [postResponse_closed] at stillOpen
  obtain ⟨records, posted, areRecords⟩ := unanswered stillOpen
  refine ⟨records, ?_, areRecords⟩
  simp [Work.postResponse, stillOpen, posted]

variable {known : List Effect → Prop}

theorem ignore_knows (thrown : Failure → Work → Prop) :
    Meets (Knows codec known type held before) ignoreInterruptedOrClosedRequest
      (fun isIgnored now => if isIgnored then Ignored type held before now else Knows codec known type held before now)
      thrown := by
  apply ignore_meets
  · rintro now ⟨serving, -⟩ isClosed
    refine ⟨serving.toBase, serving.toUnchanged, fun stillOpen => ?_, fun stillOpen => ?_, serving.pulled⟩
    · rw [isClosed] at stillOpen
      cases stillOpen
    · rw [isClosed] at stillOpen
      cases stillOpen
  · rintro now ⟨serving, -⟩ isOpen pending
    refine ⟨serving.toBase.post _, ⟨?_, ?_, ?_, ?_⟩, fun _ => ?_, fun stillOpen => serving.unanswered.post stillOpen,
      by simpa using serving.pulled⟩
    · simpa using serving.query
    · simpa using serving.transaction
    · simpa using serving.state
    · exact serving.live.of_same (by simp) (by simp) (by simp)
    · simpa using pending

theorem unlessIgnored {Value : Type} {ends rest : Handler Value}
    {after : Value → Work → Prop}
    (ended : Meets (Ignored type held before) ends after thrown)
    (continued : Meets (Knows codec known type held before) rest after thrown) :
    Meets (Knows codec known type held before)
      (do
        let ignored ← ignoreInterruptedOrClosedRequest
        if ignored then ends else rest) after thrown := by
  apply Meets.bind (ignore_knows thrown)
  intro ignored
  cases ignored with
  | true => exact ended
  | false => exact continued

theorem failSession_answers (failure : Failure) :
    Meets (Failing type before) (failSession outcomes failure) (fun _ => Answered codec type before) Never := by
  apply Meets.bind (abort_failing outcomes _)
  intro _
  have checked : Meets (Aborted type before) ignoreInterruptedOrClosedRequest
      (fun isIgnored now => if isIgnored then Answered codec type before now else Aborted type before now) Never := by
    apply ignore_meets
    · intro now aborted isClosed
      refine ⟨aborted.toBase, live_of_none aborted.query aborted.transaction, by simp [aborted.packed],
        fun stillOpen => ?_, fun stillOpen => ?_⟩
      · rw [isClosed] at stillOpen
        cases stillOpen
      · rw [isClosed] at stillOpen
        cases stillOpen
    · intro now aborted isOpen pending
      refine ⟨aborted.toBase.post _, ?_, by simp [aborted.packed], fun stillOpen => ?_, fun _ none => ?_⟩
      · exact live_of_none (by simpa using aborted.query) (by simpa using aborted.transaction)
      · exact reply_of_ignored (aborted.unanswered.post stillOpen)
      · exact absurd none (by simpa using pending)
  apply Meets.bind checked
  intro isIgnored
  cases isIgnored with
  | true => exact Meets.pure fun now answered => answered
  | false =>
    apply Meets.bind Meets.changed
    intro _
    apply Meets.modify
    rintro _ ⟨now, aborted, rfl⟩
    refine ⟨(aborted.toBase.post _).of_same rfl rfl rfl rfl rfl rfl, live_of_none ?_ ?_,
      by simp [aborted.packed], fun stillOpen => ?_,
      fun _ _ => ⟨?_, ?_⟩⟩
    · simpa using aborted.query
    · simpa using aborted.transaction
    · obtain ⟨records, isPosted, areRecords⟩ := aborted.unanswered.post stillOpen
      exact ⟨_, isPosted, isAnswer_append areRecords rfl, fun _ => rfl, fun _ _ => delivers_concat nofun⟩
    · simp [aborted.transaction]
    · simp [aborted.query]

end RocksGraph.Bolt
