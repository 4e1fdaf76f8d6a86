import RocksGraph.Raft.LogSpec
import RocksGraph.Raft.Node

/-! What functions of the raft state machine leave: sent messages, resets,
appended entries and the positions of the log. -/

set_option autoImplicit false

namespace RocksGraph.Eraft

open Foundation List

namespace Raft

structure Core where
  term : Nat
  vote : Nat
  state : StateType
  log : RaftLog
  conf : TrackerConfig

def core (raft : Raft) : Core where
  term := raft.term
  vote := raft.vote
  state := raft.state
  log := raft.log
  conf := raft.trk.config

def outbox (raft : Raft) : List Message := raft.msgs ++ raft.msgsAfterAppend

def Raises (raft next : Raft) : Prop :=
  next.pendingConfIndex = raft.pendingConfIndex ∨ raft.log.lastIndex < next.pendingConfIndex

variable (config : Config)

structure SelfAck (raft : Raft) (message : Message) : Prop where
  type : message.type = .appResp
  accepted : message.reject = false
  source : message.fromId = config.id
  target : message.toId = config.id
  term : message.term = raft.term
  index : message.index = raft.log.lastIndex

def Adds (raft next : Raft) (kind : Message → Prop) : Prop :=
  ∀ message ∈ next.outbox, message ∈ raft.outbox ∨ kind message

variable {config} {raft next : Raft}

theorem core_log (same : next.core = raft.core) : next.log = raft.log := congrArg Core.log same

/-- A message on its way out: its sender is filled in, and its term unless it
carries one of its own. -/
structure Stamped (config : Config) (raft : Raft) (message stamped : Message) : Prop where
  same : stamped = { message with fromId := stamped.fromId, term := stamped.term }
  source : message.fromId = 0 → stamped.fromId = config.id
  voting : MessageType.isVoting message.type = true → stamped.term = message.term ∧ message.term ≠ 0
  ordinary : MessageType.isVoting message.type = false → message.type ≠ .prop → stamped.term = raft.term
  proposal : message.type = .prop → stamped.term = 0

variable {message : Message}

theorem stamped_of_stamp {stamped : Message} (done : raft.stamp config message = some stamped) :
    Stamped config raft message stamped := by
  have source (unset : message.fromId = 0) :
      (if message.fromId = 0 then config.id else message.fromId) = config.id := if_pos unset
  unfold stamp at done
  simp only at done
  split at done
  next voting =>
    split at done
    · cases done
    rename_i termed
    cases done
    refine ⟨rfl, source, fun _ => ⟨rfl, termed⟩, fun other => ?_, fun isProp => ?_⟩
    · rw [voting] at other
      cases other
    · simp only [isProp] at voting
      cases voting
  next ordinary =>
    split at done
    · cases done
    rename_i unset
    split at done
    next isProp =>
      cases done
      exact ⟨rfl, source, fun voting => absurd voting ordinary, fun _ other => absurd isProp other,
        fun _ => not_not.mp unset⟩
    next other =>
      cases done
      exact ⟨rfl, source, fun voting => absurd voting ordinary, fun _ _ => rfl,
        fun isProp => absurd isProp other⟩

/-- What `send` does: the stamped message joins the outbox. -/
structure Sent (config : Config) (raft : Raft) (message : Message) (next : Raft) : Prop where
  core : next.core = raft.core
  trk : next.trk = raft.trk
  pending : next.pendingConfIndex = raft.pendingConfIndex
  transferee : next.leadTransferee = raft.leadTransferee
  sent : ∀ other ∈ next.outbox, other ∈ raft.outbox ∨ Stamped config raft message other ∧
    (other.toId = config.id → MessageType.isAfterAppend other.type = true)

theorem sent_of_send (done : raft.send config message = some next) :
    Sent config raft message next := by
  obtain ⟨stamped, isStamped, done⟩ := Option.bind_eq_some_iff.mp done
  have isSent := stamped_of_stamp isStamped
  split at done
  next waits =>
    cases done
    refine ⟨rfl, rfl, rfl, rfl, fun other mem => ?_⟩
    simp only [outbox, mem_append, mem_singleton, ← or_assoc] at mem ⊢
    rcases mem with mem | rfl
    · exact .inl mem
    · exact .inr ⟨isSent, fun _ => waits⟩
  · split at done
    · cases done
    rename_i other
    cases done
    refine ⟨rfl, rfl, rfl, rfl, fun message mem => ?_⟩
    simp only [outbox, mem_append, mem_singleton] at mem ⊢
    rcases mem with (mem | rfl) | mem
    · exact .inl (.inl mem)
    · exact .inr ⟨isSent, fun same => absurd same other⟩
    · exact .inl (.inr mem)

theorem Stamped.type {stamped : Message} (isStamped : Stamped config raft message stamped) :
    stamped.type = message.type := by
  rw [isStamped.same]

/-- The progress of the peers in a list is set anew, and that of the others stays. -/
theorem foldl_setProgress (fresh : Nat → Progress → Progress) (ids : List Nat) (trk : Tracker) :
    ∃ progress, ids.foldl (fun trk id =>
      match trk.progress.get id with
      | some old => trk.setProgress id (fresh id old)
      | none => trk) trk = { trk with progress } ∧
      ∀ id found, progress.get id = some found →
        id ∉ ids ∧ trk.progress.get id = some found ∨ ∃ old, found = fresh id old := by
  induction ids generalizing trk with
  | nil => exact ⟨trk.progress, rfl, fun id found isFound => .inl ⟨not_mem_nil, isFound⟩⟩
  | cons head rest ih =>
    rw [foldl_cons]
    split
    next old known =>
      obtain ⟨progress, same, kept⟩ := ih (trk.setProgress head (fresh head old))
      refine ⟨progress, same, fun id found isFound => ?_⟩
      rcases kept id found isFound with ⟨absent, isOld⟩ | isFresh
      · simp only [Tracker.setProgress, Table.get_put] at isOld
        split at isOld
        next isHead =>
          exact .inr ⟨old, isHead ▸ (Option.some.inj isOld).symm⟩
        next other =>
          exact .inl ⟨by simp [other, absent], isOld⟩
      · exact .inr isFresh
    next known =>
      obtain ⟨progress, same, kept⟩ := ih trk
      refine ⟨progress, same, fun id found isFound => (kept id found isFound).imp_left fun old => ⟨?_, old.2⟩⟩
      have other : id ≠ head := by
        rintro rfl
        cases known.symm.trans old.2
      simp [other, old.1]

theorem mem_peers {trk : Tracker} {id : Nat} {progress : Progress}
    (known : trk.progress.get id = some progress) : id ∈ trk.peers :=
  mem_map.mpr ⟨(id, progress), (Table.get_eq_some_iff _).mp known, rfl⟩

structure Reset (config : Config) (raft : Raft) (term : Nat) (next : Raft) : Prop where
  core : next.core = { raft.core with term, vote := if term = raft.term then raft.vote else 0 }
  outbox : next.outbox = raft.outbox
  votes : ∀ id, next.trk.votes.get id = none
  matched : ∀ id progress, next.trk.progress.get id = some progress →
    progress.matched = 0 ∨ id = config.id ∧ progress.matched = raft.log.lastIndex

theorem reset_trk (raft : Raft) (term : Nat) :
    ∃ progress, (raft.reset config term).trk = { raft.trk.resetVotes with progress } ∧
      ∀ id found, progress.get id = some found → ∃ old : Progress, found = raft.freshProgress config id old.isLearner := by
  obtain ⟨progress, same, known⟩ := foldl_setProgress
    (fun id old => raft.freshProgress config id old.isLearner) raft.trk.peers raft.trk.resetVotes
  refine ⟨progress, ?_, fun id found isFound => ?_⟩
  · rw [← same]
    unfold reset
    split <;> rfl
  · exact (known id found isFound).resolve_left fun old => old.1 (mem_peers old.2)

theorem reset_spec (raft : Raft) (term : Nat) : Reset config raft term (raft.reset config term) := by
  obtain ⟨progress, same, fresh⟩ := reset_trk raft term
  refine ⟨?_, ?_, fun id => ?_, fun id found isFound => ?_⟩
  · have conf : (raft.reset config term).trk.config = raft.trk.config := by
      rw [same]
      rfl
    rw [core, conf]
    unfold reset
    split
    next differs =>
      rw [if_neg (Ne.symm differs)]
      rfl
    next equal =>
      rw [not_not] at equal
      rw [if_pos equal.symm, ← equal]
      rfl
  · unfold reset
    split <;> rfl
  · rw [same]
    rfl
  · rw [same] at isFound
    obtain ⟨old, rfl⟩ := fresh id found isFound
    simp only [freshProgress]
    split
    next self =>
      exact .inr ⟨self, rfl⟩
    · exact .inl rfl

theorem appendEntry_cases {payloads : List Payload} {appended : Bool}
    (done : raft.appendEntry config payloads = some (next, appended)) :
    (appended = false ∧ next = raft) ∨
      (appended = true ∧ ∃ log, raft.log.append (numberEntries raft.term (raft.log.lastIndex + 1) payloads) =
          some log ∧ next.core = { raft.core with log } ∧ next.trk = raft.trk ∧
        next.pendingConfIndex = raft.pendingConfIndex ∧ Adds raft next (SelfAck config next)) := by
  unfold appendEntry at done
  simp only at done
  split at done
  · cases done
    exact .inl ⟨rfl, rfl⟩
  next sized grown =>
    obtain ⟨log, appended, done⟩ := Option.bind_eq_some_iff.mp done
    obtain ⟨after, delivered, done⟩ := Option.bind_eq_some_iff.mp done
    cases done
    have same : sized = { raft with uncommittedSize := sized.uncommittedSize } := by
      unfold increaseUncommittedSize at grown
      simp only at grown
      split at grown
      · cases grown
      · cases grown
        rfl
    have sent := sent_of_send delivered
    have sameLog : sized.log = raft.log := by rw [same]
    refine .inr ⟨rfl, log, sameLog ▸ appended, ?_, ?_, ?_, ?_⟩
    · rw [sent.core, same]
      rfl
    · rw [sent.trk, same]
    · rw [sent.pending, same]
    · have sameOutbox : ({ sized with log } : Raft).outbox = raft.outbox := by rw [same]; rfl
      intro message mem
      rcases sent.sent message mem with mem | ⟨stamped, -⟩
      · exact .inl (sameOutbox ▸ mem)
      refine .inr ?_
      have term := stamped.ordinary rfl (by simp)
      have source := stamped.source rfl
      have sameCore := sent.core
      refine ⟨stamped.type, ?_, source, ?_, ?_, ?_⟩
      · rw [stamped.same]
      · rw [stamped.same]
      · exact term.trans (congrArg Core.term sameCore).symm
      · rw [stamped.same, core_log sameCore]

theorem admitPayloads_frame (config : Config) (offset : Nat) (payloads : List Payload) (raft : Raft) :
    (raft.admitPayloads config offset payloads).1 =
      { raft with pendingConfIndex := (raft.admitPayloads config offset payloads).1.pendingConfIndex } ∧
    Raises raft (raft.admitPayloads config offset payloads).1 := by
  induction payloads generalizing raft offset with
  | nil => exact ⟨rfl, .inl rfl⟩
  | cons payload rest ih =>
    unfold admitPayloads
    simp only
    split
    · obtain ⟨same, raises⟩ := ih (offset + 1) { raft with
        pendingConfIndex := raft.log.lastIndex + offset + 1 }
      refine ⟨same, .inr ?_⟩
      rcases raises with same | above
      · rw [same]
        simp only
        omega
      · exact above
    · exact ih (offset + 1) raft

end Raft

namespace RaftLog

variable {log next : RaftLog}

theorem Ok.new (storage : LogStore) (maxSize : Nat)
    (indexes : Consecutive storage.firstIndex storage.entries) : (RaftLog.new storage maxSize).Ok := by
  have low : storage.firstIndex ≤ storage.lastIndex + 1 := by
    simp only [LogStore.firstIndex, LogStore.lastIndex]
    omega
  have within : storage.firstIndex - 1 ≤ storage.lastIndex := by omega
  exact ⟨⟨low, le_rfl, fun _ => rfl, le_rfl, le_rfl, by simp [RaftLog.new], indexes, .nil⟩,
    le_rfl, Nat.lt_succ_of_le within, le_rfl, le_rfl, within⟩

theorem Ok.append_last (ok : log.Ok) {entries : List Entry} (nonempty : entries ≠ [])
    (consecutive : Consecutive (log.lastIndex + 1) entries) (done : log.append entries = some next) :
    next.Ok ∧ next.storage = log.storage ∧ next.suffix = log.suffix ++ entries ∧
      next.unstable = { log.unstable with entries := log.unstable.entries ++ entries } ∧
      next.committed = log.committed ∧ next.applying = log.applying ∧ next.applied = log.applied := by
  have shaped := ok.toShaped
  have last := shaped.lastIndex_eq
  have pending := shaped.pending
  have length := shaped.stored_length
  have first := log.first_eq
  have total : log.suffix.length = log.unstable.offset - log.storage.firstIndex + log.unstable.entries.length := by
    rw [suffix_length, length]
  obtain ⟨uncommitted, appended⟩ := shaped.append nonempty consecutive (by omega) done
  have frame := appended.frame
  have storage : next.storage = log.storage := by rw [frame]
  have boundary : next.boundary = log.boundary := by rw [RaftLog.boundary, storage]; rfl
  have offset : next.unstable.offset = log.unstable.offset := by
    rw [appended.offset]
    omega
  have progress : next.unstable.offsetInProgress = log.unstable.offsetInProgress := by
    rw [appended.progress]
    omega
  have suffix : next.suffix = log.suffix ++ entries := by
    rw [appended.suffix, take_of_length_le (by omega)]
  have committed : next.committed = log.committed := by rw [frame]
  have applying : next.applying = log.applying := by rw [frame]
  have applied : next.applied = log.applied := by rw [frame]
  have tail : next.unstable.entries = log.unstable.entries ++ entries := by
    have same := suffix
    unfold RaftLog.suffix at same
    rw [storage, offset, append_assoc] at same
    exact append_cancel_left same
  have lastNext := appended.shaped.lastIndex_eq
  rw [suffix, length_append] at lastNext
  refine ⟨⟨appended.shaped, ?_, ?_, ?_, ?_, ?_⟩, storage, suffix, ?_, committed, applying, applied⟩
  · rw [boundary, applied]
    exact ok.kept
  · rw [applied, offset]
    exact ok.settled
  · rw [applied, applying]
    exact ok.applying_ge
  · rw [applying, committed]
    exact ok.committed_ge
  · omega
  · simp only
    rw [← offset, ← progress, ← tail]

theorem Ok.commitTo (ok : log.Ok) {index : Nat} (done : log.commitTo index = some next) : next.Ok := by
  obtain ⟨rfl, bounded⟩ := commitTo_eq done
  have ordered := ok.committed_ge
  have within := ok.committed_le
  refine ⟨ok.toShaped.congr rfl rfl, ok.kept, ok.settled, ok.applying_ge, ?_, ?_⟩
  · simp only
    omega
  · change max log.committed index ≤ log.lastIndex
    omega

end RaftLog

theorem consecutive_numberEntries (term : Nat) (payloads : List Payload) (start : Nat) :
    Consecutive start (Raft.numberEntries term start payloads) := by
  induction payloads generalizing start with
  | nil => exact .nil
  | cons payload rest ih =>
    intro k entry found
    cases k with
    | zero =>
      cases found
      rfl
    | succ k =>
      have := ih (start + 1) k entry found
      omega

theorem length_numberEntries (term : Nat) (payloads : List Payload) (start : Nat) :
    (Raft.numberEntries term start payloads).length = payloads.length := by
  induction payloads generalizing start with
  | nil => rfl
  | cons payload rest ih => simp [Raft.numberEntries, ih]

theorem length_admitPayloads (config : Config) (payloads : List Payload) (raft : Raft) (offset : Nat) :
    (raft.admitPayloads config offset payloads).2.length = payloads.length := by
  induction payloads generalizing raft offset with
  | nil => rfl
  | cons payload rest ih => simp [Raft.admitPayloads, ih]

end RocksGraph.Eraft
