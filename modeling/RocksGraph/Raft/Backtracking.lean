import RocksGraph.Raft.LeaderProgress

/-! Where a leader probes after a rejection (`findConflictByTerm`, `handleAppendEntries`, `stepLeader`).

The follower answers with the last index whose term is not above that of the
append, and the leader looks for the last of its own whose term is not above
that of the answer. Neither passes over an index at which the logs agree. -/

set_option autoImplicit false

namespace RocksGraph.Eraft

open Foundation List Option

variable {index term : Nat}

namespace RaftLog

/-- The terms of all entries of a log, those that are compacted too. -/
structure History (log : RaftLog) (terms : Nat → Nat) : Prop extends log.Ok where
  zero : terms 0 = 0
  read : ∀ index found, log.term index = .ok found → found = terms index
  ordered : ∀ earlier later, earlier ≤ later → later ≤ log.lastIndex → terms earlier ≤ terms later

variable {log : RaftLog} {terms : Nat → Nat}

theorem History.term_eq (history : log.History terms) (kept : log.boundary ≤ index)
    (inside : index ≤ log.lastIndex) : log.term index = .ok (terms index) := by
  obtain ⟨found, isFound⟩ := history.toShaped.term_ok kept inside
  rw [isFound, history.read index found isFound]

theorem History.le_findConflictByTerm (history : log.History terms) {wanted : Nat}
    (before : wanted ≤ index) (small : terms wanted ≤ term) : wanted ≤ (log.findConflictByTerm index term).1 := by
  induction index with
  | zero => exact before
  | succ index ih =>
    unfold findConflictByTerm
    split
    · exact before
    rename_i ourTerm known
    split
    · exact before
    rename_i larger
    apply ih
    -- The index passed over has a larger term, so it is not the wanted one.
    by_contra beyond
    have same : wanted = index + 1 := by omega
    rw [history.read _ _ known, ← same] at larger
    exact larger small

theorem findConflictByTerm_term (log : RaftLog) (index term : Nat) :
    (log.findConflictByTerm index term).2 = 0 ∨
      log.term (log.findConflictByTerm index term).1 = .ok (log.findConflictByTerm index term).2 := by
  induction index with
  | zero => exact .inl rfl
  | succ index ih =>
    unfold findConflictByTerm
    split
    · exact .inl rfl
    rename_i ourTerm known
    split
    · exact .inr known
    · exact ih

end RaftLog

def Agree (leader follower : RaftLog) (leaderTerms followerTerms : Nat → Nat) (index : Nat) : Prop :=
  index ≤ leader.lastIndex ∧ index ≤ follower.lastIndex ∧ leaderTerms index = followerTerms index

/-- Two logs that satisfy log matching: where they agree at an index, they agree before it. -/
structure Matching (leader follower : RaftLog) (leaderTerms followerTerms : Nat → Nat) : Prop where
  leads : leader.History leaderTerms
  follows : follower.History followerTerms
  before : ∀ index, Agree leader follower leaderTerms followerTerms index → ∀ earlier ≤ index,
    leaderTerms earlier = followerTerms earlier

namespace Matching

variable {leader follower : RaftLog} {leaderTerms followerTerms : Nat → Nat}

section

variable (logs : Matching leader follower leaderTerms followerTerms)
include logs

theorem agree_zero : Agree leader follower leaderTerms followerTerms 0 :=
  ⟨Nat.zero_le _, Nat.zero_le _, logs.leads.zero.trans logs.follows.zero.symm⟩

theorem matchTerm {probed : Nat}
    (agree : Agree leader follower leaderTerms followerTerms index) (before : probed ≤ index)
    (kept : follower.boundary ≤ probed) (sent : leader.term probed = .ok term) :
    follower.matchTerm probed term = true := by
  have known := logs.follows.term_eq kept (before.trans agree.2.1)
  rw [RaftLog.matchTerm, known, logs.leads.read probed term sent]
  exact decide_eq_true (logs.before index agree probed before).symm

theorem le_probe {probed : Nat}
    (agree : Agree leader follower leaderTerms followerTerms index) (before : index < probed)
    (sent : leader.term probed = .ok term) :
    let hint := follower.findConflictByTerm (min probed follower.lastIndex) term
    index ≤ if hint.2 > 0 then (leader.findConflictByTerm hint.1 hint.2).1 else hint.1 := by
  intro hint
  have inside := (logs.leads.toShaped.term_inside sent).2
  have sentTerm := logs.leads.read probed term sent
  have answered : index ≤ hint.1 := by
    apply logs.follows.le_findConflictByTerm
    · exact Nat.le_min.mpr ⟨le_of_lt before, agree.2.1⟩
    · rw [← agree.2.2, sentTerm]
      exact logs.leads.ordered index probed (le_of_lt before) inside
  split
  next positive =>
    rcases follower.findConflictByTerm_term (min probed follower.lastIndex) term with zero | known
    · exact absurd zero (Nat.pos_iff_ne_zero.mp positive)
    apply logs.leads.le_findConflictByTerm answered
    have hintTerm : hint.2 = followerTerms hint.1 := logs.follows.read _ _ known
    rw [agree.2.2, hintTerm]
    exact logs.follows.ordered index hint.1 answered (logs.follows.toShaped.term_inside known).2
  · exact answered

end

end Matching

namespace Raft

variable {config peerConfig : Config} {leader follower answered next : Raft} {append response : Message}

structure Rejects (follower : Raft) (append response : Message) : Prop where
  uncommitted : follower.log.committed ≤ append.index
  differs : follower.log.matchTerm append.index append.logTerm = false
  index : response.index = append.index
  hint : (response.rejectHint, response.logTerm) =
    follower.log.findConflictByTerm (min append.index follower.log.lastIndex) append.logTerm

theorem getLast_of_send {message : Message} (waits : message.type = .appResp)
    (done : follower.send peerConfig message = some answered) (last : answered.msgsAfterAppend.getLast? = some response) :
    Stamped peerConfig follower message response := by
  obtain ⟨stamped, isStamped, done⟩ := bind_eq_some_iff.mp done
  have isSent := stamped_of_stamp isStamped
  have type : MessageType.isAfterAppend stamped.type = true := by
    rw [isSent.type, waits]
    rfl
  rw [if_pos type] at done
  cases done
  rw [getLast?_append] at last
  cases last
  exact isSent

theorem rejects_of_handleAppendEntries (done : follower.handleAppendEntries peerConfig append = some answered)
    (last : answered.msgsAfterAppend.getLast? = some response) (rejected : response.reject = true) :
    Rejects follower append response ∧ response.fromId = peerConfig.id := by
  unfold handleAppendEntries at done
  split at done
  · have stamped := getLast_of_send rfl done last
    rw [stamped.same] at rejected
    cases rejected
  next uncommitted =>
    obtain ⟨⟨log, appended⟩, merged, done⟩ := bind_eq_some_iff.mp done
    cases appended with
    | some lastNew =>
      have stamped := getLast_of_send rfl done last
      rw [stamped.same] at rejected
      cases rejected
    | none =>
      have stamped := getLast_of_send rfl done last
      refine ⟨⟨not_lt.mp uncommitted, ?_, ?_, ?_⟩, stamped.source rfl⟩
      · unfold RaftLog.maybeAppend at merged
        split at merged
        next differs =>
          simpa using differs
        · obtain ⟨extended, _, merged⟩ := bind_eq_some_iff.mp merged
          obtain ⟨final, _, merged⟩ := bind_eq_some_iff.mp merged
          cases merged
      · rw [stamped.same]
      · rw [stamped.same]

/-- A round of probing: the follower answers an append that follows the entry before `next_`, and the leader handles the
answer if it is a rejection. -/
def probe (config peerConfig : Config) (follower leader : Raft) (append : Message) : Option Raft :=
  match leader.trk.progress.get peerConfig.id with
  | none => none
  | some progress =>
    if progress.state ≠ .replicate ∧ append.index = progress.next - 1 ∧
        leader.log.term append.index = .ok append.logTerm then do
      let answered ← follower.handleAppendEntries peerConfig append
      let response ← answered.msgsAfterAppend.getLast?
      if response.reject then leader.stepAppResp config response progress else none
    else none

variable {progress : Progress}

theorem maybeDecrTo_eq {rejected matchHint : Nat} (probed : progress.state ≠ .replicate)
    (asked : rejected = progress.next - 1) : progress.maybeDecrTo rejected matchHint = some { progress with
      next := max (min rejected (matchHint + 1)) 1
      msgAppFlowPaused := false } := by
  unfold Progress.maybeDecrTo
  split
  next replicating =>
    exact absurd replicating probed
  · rw [if_neg (not_not.mpr asked.symm)]

theorem stepAppResp_reject (ok : leader.log.Ok)
    (probed : progress.state ≠ .replicate) (asked : response.index = progress.next - 1)
    (rejected : response.reject = true) (done : leader.stepAppResp config response progress = some next) :
    next.log = leader.log ∧ ∃ after, next.trk.progress.get response.fromId = some after ∧
      after.next = max (min response.index (leader.probeHint response + 1)) 1 := by
  let lowered : Progress := { progress with
    recentActive := true
    next := max (min response.index (leader.probeHint response + 1)) 1
    msgAppFlowPaused := false }
  let active := leader.setProgress response.fromId { progress with recentActive := true }
  have sent : (active.setProgress response.fromId lowered).sendAppend config response.fromId = some next := by
    unfold stepAppResp at done
    rw [if_pos rejected] at done
    unfold stepAppReject at done
    simp only at done
    rw [maybeDecrTo_eq (by exact probed) (by exact asked)] at done
    simp only at done
    rw [if_neg probed] at done
    exact done
  have aims : Aims (active.setProgress response.fromId lowered) next := aims_sendAppend ok.toShaped sent
  have known : (active.setProgress response.fromId lowered).trk.progress.get response.fromId = some lowered := by
    simp [setProgress, Tracker.setProgress]
  obtain ⟨after, isAfter⟩ := aims.tracked response.fromId lowered known
  obtain ⟨before, isBefore, onward⟩ := aims.onward response.fromId after isAfter
  rw [known] at isBefore
  cases isBefore
  refine ⟨aims.log, after, isAfter, ?_⟩
  -- Sending moves `next_` of a replicating peer only.
  rcases onward.next with same | ⟨replicating, -, -⟩
  · exact same
  · exact absurd replicating probed

section Rounds

variable {leaderTerms followerTerms : Nat → Nat}

section

variable (logs : Matching leader.log follower.log leaderTerms followerTerms)
include logs

theorem lt_of_rejects
    (sent : leader.log.term append.index = .ok append.logTerm) (rejects : Rejects follower append response)
    (agree : Agree leader.log follower.log leaderTerms followerTerms index) : index < append.index := by
  by_contra before
  have kept : follower.log.boundary ≤ append.index := by
    have stored := logs.follows.kept
    have applying := logs.follows.applying_ge
    have committed := logs.follows.committed_ge
    have uncommitted := rejects.uncommitted
    omega
  have matched := logs.matchTerm agree (not_lt.mp before) kept sent
  rw [rejects.differs] at matched
  cases matched

theorem le_probeHint_of_rejects
    (sent : leader.log.term append.index = .ok append.logTerm) (rejects : Rejects follower append response)
    (agree : Agree leader.log follower.log leaderTerms followerTerms index) : index ≤ leader.probeHint response := by
  have searched := logs.le_probe agree (lt_of_rejects logs sent rejects agree) sent
  rw [← rejects.hint] at searched
  exact searched

theorem probe_backtracks {before : Progress}
    (known : leader.trk.progress.get peerConfig.id = some before)
    (done : probe config peerConfig follower leader append = some next) :
    next.log = leader.log ∧ ∃ after, next.trk.progress.get peerConfig.id = some after ∧ after.next < before.next ∧
      ∀ index, Agree leader.log follower.log leaderTerms followerTerms index → index ≤ after.next - 1 := by
  unfold probe at done
  rw [known] at done
  simp only at done
  split at done
  next asked =>
    obtain ⟨probed, position, sent⟩ := asked
    obtain ⟨answered, handled, done⟩ := bind_eq_some_iff.mp done
    obtain ⟨response, isLast, done⟩ := bind_eq_some_iff.mp done
    split at done
    next rejected =>
      obtain ⟨rejects, source⟩ := rejects_of_handleAppendEntries handled isLast rejected
      obtain ⟨log, after, isAfter, lowered⟩ := stepAppResp_reject logs.leads.toOk probed
        (rejects.index.trans position) rejected done
      rw [source] at isAfter
      have positive : 0 < append.index := lt_of_rejects logs sent rejects logs.agree_zero
      have index := rejects.index
      refine ⟨log, after, isAfter, by omega, fun wanted agree => ?_⟩
      have earlier := lt_of_rejects logs sent rejects agree
      have hint := le_probeHint_of_rejects logs sent rejects agree
      omega
    · cases done
  · cases done

end

/-- Rejected probes of a peer that is not replicating go back without passing over an index at which the logs agree, so
that there are no more of them than indexes before `next_`, and an append at such an index is accepted. -/
theorem probes_backtrack (logs : Matching leader.log follower.log leaderTerms followerTerms) {before : Progress}
    (known : leader.trk.progress.get peerConfig.id = some before) :
    (∀ appends last, Runs (probe config peerConfig follower) anyAction leader appends last →
      ∃ after, last.trk.progress.get peerConfig.id = some after ∧ after.next + appends.length ≤ before.next ∧
        (appends ≠ [] → ∀ index, Agree leader.log follower.log leaderTerms followerTerms index →
          index ≤ after.next - 1)) ∧
    ∀ append answered response, Agree leader.log follower.log leaderTerms followerTerms append.index →
      leader.log.term append.index = .ok append.logTerm →
      follower.handleAppendEntries peerConfig append = some answered →
      answered.msgsAfterAppend.getLast? = some response → response.reject = false := by
  constructor
  · intro appends last run
    suffices all : last.log = leader.log ∧ ∃ after, last.trk.progress.get peerConfig.id = some after ∧
        after.next + appends.length ≤ before.next ∧
        (appends ≠ [] → ∀ index, Agree leader.log follower.log leaderTerms followerTerms index →
          index ≤ after.next - 1) from all.2
    induction run with
    | nil => exact ⟨rfl, before, known, Nat.le.refl, fun some => absurd rfl some⟩
    | snoc _ _ taken ih =>
      obtain ⟨log, middle, isMiddle, lower, -⟩ := ih
      rw [← log] at logs ⊢
      obtain ⟨same, after, isAfter, lowered, bound⟩ := probe_backtracks logs isMiddle taken
      refine ⟨same, after, isAfter, ?_, fun _ => bound⟩
      rw [length_append, length_singleton]
      omega
  · intro append answered response agree sent handled isLast
    by_contra rejected
    rw [Bool.not_eq_false] at rejected
    obtain ⟨rejects, -⟩ := rejects_of_handleAppendEntries handled isLast rejected
    exact lt_irrefl _ (lt_of_rejects logs sent rejects agree)

end Rounds

end Raft

/-! ## Peers that are replicating -/

namespace Raft.Example

def firstTerm (index : Nat) : Nat := if index = 0 then 0 else 1

theorem history_node {id : Nat} {entries : List Entry} {state : StateType} (indexes : Consecutive 1 entries)
    (terms : ∀ entry ∈ entries, entry.term = 1) : (node id entries state).log.History firstTerm := by
  have ok : (node id entries state).log.Ok := RaftLog.Ok.new _ _ indexes
  refine ⟨ok, rfl, ?_, ?_⟩
  · intro index found isFound
    rw [ok.toShaped.term_eq, RaftLog.suffixTerm] at isFound
    have start : (node id entries state).log.boundary = 0 := rfl
    rw [start] at isFound
    split at isFound
    · cases isFound
    split at isFound
    next zero =>
      cases isFound
      rw [firstTerm, if_pos zero]
      rfl
    next positive =>
      split at isFound
      next entry known =>
        cases isFound
        have mem := mem_of_getElem? known
        rw [RaftLog.suffix, mem_append] at mem
        rw [firstTerm, if_neg positive]
        rcases mem with stored | unstable
        · exact terms entry (mem_of_mem_take stored)
        · cases unstable
      · cases isFound
  · intro earlier later order _
    simp only [firstTerm]
    split <;> split <;> omega

theorem matching : Matching candidate.log follower.log firstTerm firstTerm where
  leads := history_node (by
    intro k entry found
    match k, found with
    | 0, rfl | 1, rfl | 2, rfl | 3, rfl => rfl) (by decide)
  follows := history_node (by
    intro k entry found
    match k, found with
    | 0, rfl | 1, rfl => rfl) (by decide)
  before _ _ _ _ := rfl

def leader (progress : Progress) : Raft :=
  { candidate with state := .leader, trk := candidate.trk.setProgress 2 progress }

def probed : Progress where
  matched := 0
  next := 5
  state := .probe
  pendingSnapshot := 0
  recentActive := true
  msgAppFlowPaused := false
  inflights := .new 256 0
  isLearner := false

def append : Message := { type := .app, toId := 2, fromId := 1, term := 2, index := 4, logTerm := 1 }

/-- A probe after entry 4 is rejected; the next one is not before entry 2, which both nodes have. -/
theorem probes_backtrack_rejected :
    ∃ last after, Runs (probe (config 1) (config 2) follower) anyAction (leader probed) [append] last ∧
      last.trk.progress.get 2 = some after ∧ after.next + 1 ≤ 5 ∧ 2 ≤ after.next - 1 := by
  have executed : (execute (probe (config 1) (config 2) follower) anyAction (leader probed) [append]).isSome = true := by
    decide +kernel
  obtain ⟨last, executed⟩ := isSome_iff_exists.mp executed
  have known : (leader probed).trk.progress.get (config 2).id = some probed := by decide +kernel
  have logs : Matching (leader probed).log follower.log firstTerm firstTerm := matching
  have run := runs_of_execute executed
  obtain ⟨after, isAfter, lower, bound⟩ := (probes_backtrack logs known).1 [append] last run
  refine ⟨last, after, run, isAfter, lower, bound (by simp) 2 ?_⟩
  exact ⟨by decide, by decide, rfl⟩

/-- A replicating peer that has acknowledged entry 1 only and rejects the append is probed there, although both nodes
have entry 2. -/
theorem probe_before_agreement :
    let replicating := { probed with matched := 1, state := .replicate }
    Matching (leader replicating).log follower.log firstTerm firstTerm ∧
    (leader replicating).trk.progress.get 2 = some replicating ∧ append.index = replicating.next - 1 ∧
    (leader replicating).log.term append.index = .ok append.logTerm ∧
    ∃ answered response next after, follower.handleAppendEntries (config 2) append = some answered ∧
      answered.msgsAfterAppend.getLast? = some response ∧ response.reject = true ∧
      (leader replicating).stepAppResp (config 1) response replicating = some next ∧
      next.trk.progress.get 2 = some after ∧
      ∃ index, Agree (leader replicating).log follower.log firstTerm firstTerm index ∧ after.next - 1 < index := by
  intro replicating
  refine ⟨matching, by decide +kernel, by decide, by decide +kernel, ?_⟩
  have computed : ((follower.handleAppendEntries (config 2) append).bind fun answered =>
      answered.msgsAfterAppend.getLast?.bind fun response =>
        ((leader replicating).stepAppResp (config 1) response replicating).bind fun next =>
          (next.trk.progress.get 2).map fun after => (response.reject, after.next)) = some (true, 2) := by
    decide +kernel
  obtain ⟨answered, handled, computed⟩ := bind_eq_some_iff.mp computed
  obtain ⟨response, isLast, computed⟩ := bind_eq_some_iff.mp computed
  obtain ⟨next, stepped, computed⟩ := bind_eq_some_iff.mp computed
  obtain ⟨after, known, shown⟩ := map_eq_some_iff.mp computed
  simp only [Prod.mk.injEq] at shown
  refine ⟨answered, response, next, after, handled, isLast, shown.1, stepped, known, 2, ?_, by omega⟩
  exact ⟨by decide, by decide, rfl⟩

end Raft.Example

end RocksGraph.Eraft
