import RocksGraph.Raft.Backtracking

/-! The progress of all peers during the reign of a leader.

`match_` stays before `next_` as long as no rejection is handled that is older
than what its peer has acknowledged: such a one passes the test of `MaybeDecrTo`
when it names the last probed index, and takes `next_` back behind `match_`. -/

set_option autoImplicit false

namespace RocksGraph.Eraft

open Foundation List Option

namespace Raft

variable {config : Config} {raft next : Raft}

/-- What happens to a leader. What touches neither its tracker nor the end of its log (the storage and what is applied,
timers, votes asked for, messages handed over) is one event, which gives the node afterwards. -/
inductive ReignEvent where
  | message (message : Message)
  | confChange (change : ConfChange)
  | elsewhere (later : Raft) (ok : later.log.Ok)

def reign (config : Config) (raft : Raft) : ReignEvent → Option Raft
  | .message message => if raft.state = .leader then (raft.stepLeader config message).map Prod.fst else none
  | .confChange change => if raft.state = .leader then raft.applyConfChange config change else none
  | .elsewhere later _ =>
    if raft.state = .leader ∧ later.log.lastIndex = raft.log.lastIndex then
      some { later with trk := raft.trk, state := .leader }
    else none

/-- Nobody acknowledges more than the leader has; rejections come in any order and any number of times. -/
def answered (raft : Raft) : ReignEvent → Prop
  | .message message => message.type = .appResp → message.reject = false → message.index ≤ raft.log.lastIndex
  | _ => True

instance (raft : Raft) (event : ReignEvent) : Decidable (raft.answered event) := by
  unfold answered
  split <;> infer_instance

/-- A follower whose log agrees with that of the leader up to `matched` gives this answer to an append from the log
of the leader. A rejection that is older than the acknowledgement of `matched` need not be of this kind. -/
def FreshRejection (leader : Raft) (message : Message) (matched : Nat) : Prop :=
  ∃ (follower : Raft) (append : Message) (leaderTerms followerTerms : Nat → Nat),
    Matching leader.log follower.log leaderTerms followerTerms ∧
      Agree leader.log follower.log leaderTerms followerTerms matched ∧
      leader.log.term append.index = .ok append.logTerm ∧ Rejects follower append message

theorem FreshRejection.current {message : Message} {progress : Progress}
    (fresh : raft.FreshRejection message progress.matched) : raft.Current message progress := by
  obtain ⟨follower, append, leaderTerms, followerTerms, logs, agree, sent, rejects⟩ := fresh
  intro _ _
  refine .inr ⟨?_, le_probeHint_of_rejects logs sent rejects agree⟩
  rw [rejects.index]
  exact lt_of_rejects logs sent rejects agree

/-- A rejection of the last probe comes from a peer that has acknowledged nothing, or after all it has acknowledged. -/
def notStale (raft : Raft) : ReignEvent → Prop
  | .message message => message.type = .appResp → message.reject = true →
      ∀ progress ∈ raft.trk.progress.get message.fromId, progress.state ≠ .replicate →
        progress.next - 1 = message.index → progress.matched = 0 ∨ raft.FreshRejection message progress.matched
  | _ => True

theorem Leading.reign (leading : raft.Leading) {event : ReignEvent} (answered : raft.answered event)
    (notStale : raft.notStale event) (done : raft.reign config event = some next) : next.Leading := by
  unfold Raft.reign at done
  split at done
  · split at done
    · obtain ⟨⟨after, accepted⟩, stepped, same⟩ := map_eq_some_iff.mp done
      cases same
      refine leading.stepLeader (fun isResp rejected progress known probed asked => ?_) answered stepped
      rcases notStale isResp rejected progress known probed asked with none | fresh
      · exact .inl none
      · exact fresh.current probed asked
    · cases done
  · split at done
    · exact leading.applyConfChange done
    · cases done
  next later ok =>
    split at done
    next leads =>
      cases done
      refine ⟨ok, leads.2 ▸ leading.begun, fun id progress known => ?_⟩
      rw [leads.2]
      exact leading.fits id progress known
    · cases done

/-- In every state that a leader reaches without handling a stale rejection, the progress of every peer has `match_`
before `next_`, and `next_` no further than one behind the log. -/
theorem progress_fits {leader last : Raft} {events : List ReignEvent} (elected : Elected config leader)
    (run : Runs (reign config) (fun raft event => raft.answered event ∧ raft.notStale event) leader events last) :
    ∀ id progress, last.trk.progress.get id = some progress →
      progress.matched < progress.next ∧ progress.next ≤ last.log.lastIndex + 1 := by
  have leading : last.Leading := by
    apply run.invariant Leading elected.leading
    intro before event after leading allowed taken
    exact leading.reign allowed.1 allowed.2 taken
  intro id progress known
  exact ⟨(leading.fits id progress known).before, (leading.fits id progress known).inside⟩

end Raft

namespace Raft.Example

def rejection : Message where
  type := .appResp
  toId := 1
  fromId := 2
  term := 2
  index := 4
  logTerm := 1
  reject := true
  rejectHint := 2

def acknowledgement : Message := { type := .appResp, toId := 1, fromId := 2, term := 2, index := 4 }

def unreachable : Message := { type := .unreachable, fromId := 2 }

theorem candidate_ok : candidate.log.Ok := by
  apply RaftLog.Ok.new
  intro k entry found
  match k, found with
  | 0, rfl | 1, rfl | 2, rfl | 3, rfl => rfl

def elected : Option Raft := (candidate.becomeLeader (config 1)).bind fun elected => elected.bcastAppend (config 1)

theorem elected_of_eq {leader : Raft} (same : elected = some leader) : Elected (config 1) leader := by
  obtain ⟨begun, became, sent⟩ := bind_eq_some_iff.mp same
  exact ⟨candidate, begun, candidate_ok, became, sent⟩

/-- Node 2 rejects the first append and takes the second one; then it is reported unreachable, and the rejection
comes once more. -/
theorem next_before_match : ∃ leader last : Raft, Elected (config 1) leader ∧
      (∃ append ∈ leader.msgs, (follower.handleAppendEntries (config 2) append).map Raft.msgsAfterAppend =
        some [rejection]) ∧
      (∃ append ∈ last.msgs, (follower.handleAppendEntries (config 2) append).map Raft.msgsAfterAppend =
        some [acknowledgement]) ∧ Runs (reign (config 1)) answered leader
        [.message rejection, .message acknowledgement, .message unreachable, .message rejection] last ∧
      ∃ progress, last.trk.progress.get 2 = some progress ∧ ¬ progress.matched < progress.next := by
  have computed : (elected.bind fun leader => (execute (reign (config 1)) answered leader
      [.message rejection, .message acknowledgement, .message unreachable, .message rejection]).map fun last =>
        ((leader.msgs[0]?.bind fun append => follower.handleAppendEntries (config 2) append).map Raft.msgsAfterAppend,
        (last.msgs[1]?.bind fun append => follower.handleAppendEntries (config 2) append).map Raft.msgsAfterAppend,
        (last.trk.progress.get 2).map fun progress => (progress.matched, progress.next))) =
      some (some [rejection], some [acknowledgement], some (4, 3)) := by decide +kernel
  obtain ⟨leader, isElected, computed⟩ := bind_eq_some_iff.mp computed
  obtain ⟨last, executed, computed⟩ := map_eq_some_iff.mp computed
  simp only [Prod.mk.injEq] at computed
  obtain ⟨rejects, accepts, shown⟩ := computed
  have answers {messages : List Message} {place : Nat} {answer : Message}
      (answer_eq : (messages[place]?.bind fun append => follower.handleAppendEntries (config 2) append).map
        Raft.msgsAfterAppend = some [answer]) :
      ∃ append ∈ messages, (follower.handleAppendEntries (config 2) append).map Raft.msgsAfterAppend =
        some [answer] := by
    cases found : messages[place]? with
    | none => simp [found] at answer_eq
    | some append =>
      rw [found] at answer_eq
      exact ⟨append, List.mem_of_getElem? found, answer_eq⟩
  obtain ⟨progress, known, positions⟩ := map_eq_some_iff.mp shown
  refine ⟨leader, last, elected_of_eq isElected, answers rejects, answers accepts, runs_of_execute executed,
    progress, known, ?_⟩
  simp only [Prod.mk.injEq] at positions
  omega

/-- Only peers that have acknowledged nothing reject. -/
def unmatched (raft : Raft) : ReignEvent → Prop
  | .message message => message.reject = true →
      ∀ progress ∈ raft.trk.progress.get message.fromId, progress.matched = 0
  | _ => True

instance (raft : Raft) (event : ReignEvent) : Decidable (unmatched raft event) := by
  unfold unmatched
  split <;> infer_instance

theorem notStale_of_unmatched {raft : Raft} {event : ReignEvent}
    (allowed : raft.answered event ∧ unmatched raft event) : raft.answered event ∧ raft.notStale event := by
  refine ⟨allowed.1, ?_⟩
  cases event with
  | message message => exact fun _ rejected progress known _ _ => .inl (allowed.2 rejected progress known)
  | confChange | elsewhere => exact trivial

/-- The same exchange without the second delivery. -/
theorem progress_fits_acknowledged :
    ∃ leader last progress, Elected (config 1) leader ∧
      Runs (reign (config 1)) (fun raft event => raft.answered event ∧ raft.notStale event) leader
        [.message rejection, .message acknowledgement, .message unreachable] last ∧
      last.trk.progress.get 2 = some progress ∧
      progress.matched < progress.next ∧ progress.next ≤ last.log.lastIndex + 1 := by
  have computed : (elected.bind fun leader => (execute (reign (config 1))
      (fun raft event => raft.answered event ∧ unmatched raft event) leader
      [.message rejection, .message acknowledgement, .message unreachable]).map fun last =>
        (last.trk.progress.get 2).isSome) = some true := by decide +kernel
  obtain ⟨leader, isElected, computed⟩ := bind_eq_some_iff.mp computed
  obtain ⟨last, executed, tracked⟩ := map_eq_some_iff.mp computed
  obtain ⟨progress, known⟩ := isSome_iff_exists.mp tracked
  have run := (runs_of_execute executed).mono fun _ _ => notStale_of_unmatched
  exact ⟨leader, last, progress, elected_of_eq isElected, run, known,
    progress_fits (elected_of_eq isElected) run 2 progress known⟩

end Raft.Example

end RocksGraph.Eraft
