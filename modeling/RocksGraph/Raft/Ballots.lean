import RocksGraph.Raft.LeaderProgress

/-! The term and the vote of a node over its life (`raft.h`).

Most of a step leaves them as they are. Where they change, the term grows or the
first vote of the term is cast. -/

set_option autoImplicit false

namespace RocksGraph.Eraft.Raft

open Foundation List Option

variable {config : Config} {raft middle next : Raft} {message : Message} {peer : Nat} {flag sent : Bool}

abbrev Ballot := Nat × Nat × StateType

def ballot (raft : Raft) : Ballot := (raft.term, raft.vote, raft.state)

def Ballot.Own (ballot : Ballot) (id : Nat) : Prop :=
  ballot.2.2 ≠ .follower ∧ ballot.2.2 ≠ .preCandidate → ballot.2.1 = id

/-- The term does not fall, the vote of a term stays once it is cast, and that of
a candidate or a leader is its own. -/
def Onward (config : Config) (raft next : Raft) : Prop :=
  raft.term ≤ next.term ∧ (next.term = raft.term → raft.vote ≠ 0 → next.vote = raft.vote) ∧
    (config.id ≠ 0 → raft.ballot.Own config.id → next.ballot.Own config.id)

theorem Onward.of_ballot (same : next.ballot = raft.ballot) : Onward config raft next := by
  have term : next.term = raft.term := congrArg Prod.fst same
  have vote : next.vote = raft.vote := congrArg (·.2.1) same
  refine ⟨term.ge, fun _ _ => vote, fun _ own => ?_⟩
  rw [same]
  exact own

theorem Onward.refl (config : Config) (raft : Raft) : Onward config raft raft := .of_ballot rfl

theorem Onward.trans (first : Onward config raft middle) (second : Onward config middle next) :
    Onward config raft next := by
  obtain ⟨rises, keeps, own⟩ := first
  obtain ⟨risesFurther, keepsFurther, ownFurther⟩ := second
  refine ⟨le_trans rises risesFurther, fun sameTerm cast => ?_, fun named isOwn => ownFurther named (own named isOwn)⟩
  -- a term that is the same at the end was the same all the way
  have sameMiddle : middle.term = raft.term := le_antisymm (sameTerm ▸ risesFurther) rises
  have kept := keeps sameMiddle cast
  rw [← kept]
  exact keepsFurther (sameTerm.trans sameMiddle.symm) (kept ▸ cast)

theorem Onward.from_ballot (later : Onward config middle next) (same : middle.ballot = raft.ballot) :
    Onward config raft next := (Onward.of_ballot same).trans later

/-! ## Steps that keep the ballot -/

theorem ballot_of_core {core : Core} (same : next.core = core) : next.ballot = (core.term, core.vote, core.state) :=
  same ▸ rfl

theorem ballot_foldlM {Item : Type} {act : Raft → Item → Option Raft} {items : List Item}
    (quiet : ∀ {raft next item}, act raft item = some next → next.ballot = raft.ballot)
    (done : items.foldlM act raft = some next) : next.ballot = raft.ballot := by
  induction items generalizing raft with
  | nil =>
    cases done
    rfl
  | cons item rest ih =>
    obtain ⟨after, acted, done⟩ := bind_eq_some_iff.mp done
    exact (ih done).trans (quiet acted)

theorem ballot_send (done : raft.send config message = some next) : next.ballot = raft.ballot :=
  ballot_of_core (sent_of_send done).core

theorem ballot_sendSnapshot {progress : Progress} (done : raft.sendSnapshot config peer progress = some (next, sent)) :
    next.ballot = raft.ballot := by
  unfold sendSnapshot at done
  split at done
  · cases done
    rfl
  · split at done
    · cases done
      rfl
    · obtain ⟨after, delivered, done⟩ := bind_eq_some_iff.mp done
      cases done
      exact (ballot_send delivered).trans rfl

theorem ballot_maybeSendAppend (done : raft.maybeSendAppend config peer flag = some (next, sent)) :
    next.ballot = raft.ballot := by
  obtain ⟨progress, -, done⟩ := bind_eq_some_iff.mp done
  split at done
  · cases done
    rfl
  · obtain ⟨fetched, -, done⟩ := bind_eq_some_iff.mp done
    split at done
    · split at done
      · cases done
        rfl
      · obtain ⟨progress, -, done⟩ := bind_eq_some_iff.mp done
        obtain ⟨after, delivered, done⟩ := bind_eq_some_iff.mp done
        cases done
        exact (ballot_send delivered).trans rfl
    -- entries or their term that are gone ask for a snapshot
    · split at done
      · cases done
        rfl
      · exact ballot_sendSnapshot done
    · split at done
      · cases done
        rfl
      · exact ballot_sendSnapshot done

theorem ballot_sendAppend (done : raft.sendAppend config peer = some next) : next.ballot = raft.ballot := by
  obtain ⟨⟨after, sent⟩, delivered, done⟩ := bind_eq_some_iff.mp done
  cases done
  exact ballot_maybeSendAppend delivered

theorem ballot_sendAppends {fuel : Nat} (done : sendAppends config peer fuel raft = some next) :
    next.ballot = raft.ballot := by
  induction fuel generalizing raft with
  | zero =>
    cases done
    rfl
  | succ fuel ih =>
    obtain ⟨⟨after, sent⟩, delivered, done⟩ := bind_eq_some_iff.mp done
    have first := ballot_maybeSendAppend delivered
    simp only at done
    split at done
    · exact (ih done).trans first
    · cases done
      exact first

theorem ballot_bcastAppend (done : raft.bcastAppend config = some next) : next.ballot = raft.ballot :=
  ballot_foldlM ballot_sendAppend done

theorem ballot_bcastHeartbeat (done : raft.bcastHeartbeat config = some next) : next.ballot = raft.ballot := by
  refine ballot_foldlM (fun {raft next peer} sent => ?_) done
  obtain ⟨progress, -, delivered⟩ := bind_eq_some_iff.mp sent
  exact ballot_send delivered

theorem ballot_appendEntry {payloads : List Payload}
    (done : raft.appendEntry config payloads = some (next, flag)) : next.ballot = raft.ballot := by
  rcases appendEntry_cases done with ⟨-, rfl⟩ | ⟨-, log, -, core, -⟩
  · rfl
  · exact ballot_of_core core

theorem ballot_maybeCommit (done : raft.maybeCommit = some (next, flag)) : next.ballot = raft.ballot := by
  obtain ⟨⟨log, advanced⟩, -, done⟩ := bind_eq_some_iff.mp done
  cases done
  rfl

theorem ballot_handleAppendEntries (done : raft.handleAppendEntries config message = some next) :
    next.ballot = raft.ballot := by
  unfold handleAppendEntries at done
  split at done
  · exact ballot_send done
  · obtain ⟨⟨log, accepted⟩, -, done⟩ := bind_eq_some_iff.mp done
    cases accepted with
    | some last => exact (ballot_send done).trans rfl
    | none => exact ballot_send done

theorem ballot_handleHeartbeat (done : raft.handleHeartbeat config message = some next) :
    next.ballot = raft.ballot := by
  obtain ⟨log, -, done⟩ := bind_eq_some_iff.mp done
  exact (ballot_send done).trans rfl

section Progress

variable {progress : Progress}

theorem ballot_stepAppReject (done : raft.stepAppReject config message progress = some next) :
    next.ballot = raft.ballot := by
  unfold stepAppReject at done
  simp only at done
  split at done
  · cases done
    rfl
  · exact (ballot_sendAppend done).trans rfl

theorem ballot_sendAfterAck {advanced paused : Bool} (done : raft.sendAfterAck config advanced paused peer = some next) :
    next.ballot = raft.ballot := by
  unfold sendAfterAck at done
  split at done
  · exact ballot_bcastAppend done
  split at done
  · exact ballot_sendAppend done
  · cases done
    rfl

theorem ballot_catchUp (done : raft.catchUp config peer = some next) : next.ballot = raft.ballot := by
  unfold catchUp at done
  split at done
  · exact ballot_sendAppends done
  · cases done
    rfl

theorem ballot_stepAppAccept (done : raft.stepAppAccept config message progress = some next) :
    next.ballot = raft.ballot := by
  unfold stepAppAccept at done
  simp only at done
  split at done
  · obtain ⟨⟨counted, advanced⟩, commits, done⟩ := bind_eq_some_iff.mp done
    obtain ⟨told, tells, done⟩ := bind_eq_some_iff.mp done
    obtain ⟨caught, catches, done⟩ := bind_eq_some_iff.mp done
    have same : caught.ballot = raft.ballot := calc
      caught.ballot = told.ballot := ballot_catchUp catches
      _ = counted.ballot := ballot_sendAfterAck tells
      _ = raft.ballot := (ballot_maybeCommit commits).trans rfl
    split at done
    · exact (ballot_send done).trans same
    · cases done
      exact same
  · cases done
    rfl

theorem ballot_stepAppResp (done : raft.stepAppResp config message progress = some next) :
    next.ballot = raft.ballot := by
  unfold stepAppResp at done
  simp only at done
  split at done
  · exact (ballot_stepAppReject done).trans rfl
  · exact (ballot_stepAppAccept done).trans rfl

theorem ballot_stepHeartbeatResp (done : raft.stepHeartbeatResp config message progress = some next) :
    next.ballot = raft.ballot := by
  unfold stepHeartbeatResp at done
  simp only at done
  split at done
  · exact (ballot_sendAppend done).trans rfl
  · cases done
    rfl

theorem ballot_stepTransferLeader (done : raft.stepTransferLeader config message progress = some next) :
    next.ballot = raft.ballot := by
  unfold stepTransferLeader at done
  simp only at done
  split at done
  · cases done
    rfl
  split at done
  · cases done
    rfl
  split at done
  · cases done
    rfl
  split at done
  · exact (ballot_send done).trans rfl
  · exact (ballot_sendAppend done).trans rfl

end Progress

theorem ballot_stepFromPeer (done : raft.stepFromPeer config message = some next) : next.ballot = raft.ballot := by
  unfold stepFromPeer at done
  split at done
  · cases done
    rfl
  split at done
  · exact ballot_stepAppResp done
  · exact ballot_stepHeartbeatResp done
  · -- snapStatus
    cases done
    unfold stepSnapStatus
    split <;> rfl
  · -- unreachable
    cases done
    unfold stepUnreachable
    split <;> rfl
  · exact ballot_stepTransferLeader done
  · cases done
    rfl

theorem ballot_stepProp (done : raft.stepProp config message = some (next, flag)) : next.ballot = raft.ballot := by
  unfold stepProp at done
  split at done
  · cases done
  split at done
  · cases done
    rfl
  split at done
  · cases done
    rfl
  have admitted : (raft.admitPayloads config 0 (message.entries.map Entry.payload)).1.ballot = raft.ballot := by
    rw [(admitPayloads_frame config 0 _ raft).1]
    rfl
  obtain ⟨⟨appended, accepted⟩, appends, done⟩ := bind_eq_some_iff.mp done
  have same := (ballot_appendEntry appends).trans admitted
  cases accepted with
  | false =>
    cases done
    exact same
  | true =>
    obtain ⟨told, tells, done⟩ := bind_eq_some_iff.mp done
    cases done
    exact (ballot_bcastAppend tells).trans same

/-! ## Changes of role -/

theorem ballot_reset (config : Config) (raft : Raft) (term : Nat) :
    (raft.reset config term).ballot = (term, if term = raft.term then raft.vote else 0, raft.state) := by
  have spec : Reset config raft term (raft.reset config term) := reset_spec raft term
  exact ballot_of_core spec.core

theorem onward_becomeFollower {term : Nat} (later : raft.term ≤ term) (lead : Nat) :
    Onward config raft (raft.becomeFollower config term lead) := by
  have fresh := ballot_reset config raft term
  have sameTerm : (raft.becomeFollower config term lead).term = term := congrArg Prod.fst fresh
  have vote : (raft.becomeFollower config term lead).vote = if term = raft.term then raft.vote else 0 :=
    congrArg (·.2.1) fresh
  refine ⟨later.trans_eq sameTerm.symm, fun unchanged _ => ?_, fun _ _ leads => absurd rfl leads.1⟩
  rw [vote, if_pos (sameTerm.symm.trans unchanged)]

theorem ballot_becomeLeader (done : raft.becomeLeader config = some next) :
    raft.state ≠ .follower ∧ next.ballot = (raft.term, raft.vote, .leader) := by
  obtain ⟨role, done⟩ := ite_none_left_eq_some.mp done
  obtain ⟨progress, -, done⟩ := bind_eq_some_iff.mp done
  obtain ⟨⟨after, accepted⟩, appended, done⟩ := bind_eq_some_iff.mp done
  have fresh := ballot_reset config raft raft.term
  rw [if_pos rfl] at fresh
  cases accepted with
  | false => cases done
  | true =>
    cases done
    refine ⟨role, (ballot_appendEntry appended).trans ?_⟩
    exact congrArg (fun ballot : Ballot => (ballot.1, ballot.2.1, StateType.leader)) fresh

theorem ballot_requestVote {type : CampaignType} {voteMsg respMsg : MessageType} {term : Nat}
    (done : raft.requestVote config type voteMsg respMsg term peer = some next) : next.ballot = raft.ballot := by
  unfold requestVote at done
  split at done
  · exact ballot_send done
  · obtain ⟨logTerm, -, done⟩ := bind_eq_some_iff.mp done
    exact ballot_send done

theorem onward_becomePreCandidate (done : raft.becomePreCandidate = some next) : Onward config raft next := by
  obtain ⟨-, done⟩ := ite_none_left_eq_some.mp done
  cases done
  exact ⟨le_rfl, fun _ _ => rfl, fun _ _ leads => absurd rfl leads.2⟩

theorem onward_becomeCandidate (done : raft.becomeCandidate config = some next) : Onward config raft next := by
  obtain ⟨-, done⟩ := ite_none_left_eq_some.mp done
  cases done
  have term : (raft.reset config (raft.term + 1)).term = raft.term + 1 :=
    congrArg Prod.fst (ballot_reset config raft (raft.term + 1))
  refine ⟨?_, fun unchanged => ?_, fun _ _ _ => rfl⟩
  · simp only [term]
    omega
  · simp only [term] at unchanged
    omega

theorem onward_campaign {type : CampaignType} (done : raft.campaign config type = some next) :
    Onward config raft next := by
  unfold campaign at done
  split at done
  · obtain ⟨started, starts, done⟩ := bind_eq_some_iff.mp done
    exact (onward_becomePreCandidate starts).trans (.of_ballot (ballot_foldlM ballot_requestVote done))
  · obtain ⟨started, starts, done⟩ := bind_eq_some_iff.mp done
    exact (onward_becomeCandidate starts).trans (.of_ballot (ballot_foldlM ballot_requestVote done))

theorem onward_hup {type : CampaignType} (done : raft.hup config type = some next) : Onward config raft next := by
  unfold hup at done
  split at done
  · cases done
    exact .refl _ _
  split at done
  · cases done
    exact .refl _ _
  obtain ⟨unapplied, -, done⟩ := bind_eq_some_iff.mp done
  split at done
  · cases done
    exact .refl _ _
  · exact onward_campaign done

theorem onward_stepVoteResp (done : raft.stepVoteResp config message = some next) : Onward config raft next := by
  unfold stepVoteResp at done
  simp only at done
  let counted := { raft with trk := raft.trk.recordVote message.fromId (!message.reject) }
  have counts : Onward config raft counted := .of_ballot rfl
  split at done
  · -- won
    split at done
    · exact counts.trans (onward_campaign done)
    next voted =>
      obtain ⟨leader, leads, done⟩ := bind_eq_some_iff.mp done
      obtain ⟨role, elected⟩ := ballot_becomeLeader leads
      have same := (ballot_bcastAppend done).trans elected
      have term : next.term = raft.term := congrArg Prod.fst same
      have vote : next.vote = raft.vote := congrArg (·.2.1) same
      -- a candidate that is no pre-candidate has voted for itself
      exact ⟨term.ge, fun _ _ => vote, fun _ own _ => vote.trans (own ⟨role, voted⟩)⟩
  · -- lost
    cases done
    exact counts.trans (onward_becomeFollower le_rfl 0)
  · -- pending
    cases done
    exact counts

/-! ## Steps -/

theorem handled_of_map {result : Option Raft} (done : result.map (·, true) = some (next, flag)) :
    result = some next := by
  obtain ⟨after, handled, same⟩ := map_eq_some_iff.mp done
  cases same
  exact handled

theorem onward_stepVote (done : raft.stepVote config message = some next) : Onward config raft next := by
  obtain ⟨granted, grants, done⟩ := bind_eq_some_iff.mp done
  cases granted with
  | false => exact .of_ballot (ballot_send done)
  | true =>
    obtain ⟨answered, delivered, done⟩ := bind_eq_some_iff.mp done
    have same := ballot_send delivered
    split at done
    next asks =>
      cases done
      have term : answered.term = raft.term := congrArg Prod.fst same
      have state : answered.state = raft.state := congrArg (·.2.2) same
      -- a vote that is cast already is given again only to the one who has it
      have again : raft.vote ≠ 0 → message.fromId = raft.vote := by
        intro cast
        simp only [Raft.grants, asks, Bool.or_eq_true, Bool.and_eq_true, decide_eq_true_eq] at grants
        split at grants
        next may =>
          rcases may with (given | free) | pre
          · exact given.symm
          · exact absurd free.1 cast
          · cases pre.1
        · cases grants
      refine ⟨term.ge, fun _ => again, fun named own leads => ?_⟩
      have mine : raft.vote = config.id := own (show raft.state ≠ _ ∧ raft.state ≠ _ from state ▸ leads)
      exact (again (mine ▸ named)).trans mine
    · cases done
      exact .of_ballot same

theorem onward_stepCheckQuorum (config : Config) (raft : Raft) : Onward config raft (raft.stepCheckQuorum config) := by
  unfold stepCheckQuorum
  simp only
  split
  · exact .of_ballot rfl
  · exact (onward_becomeFollower le_rfl 0).trans (.of_ballot rfl)

theorem onward_stepLeader (done : raft.stepLeader config message = some (next, flag)) : Onward config raft next := by
  unfold stepLeader at done
  split at done
  · -- beat
    exact .of_ballot (ballot_bcastHeartbeat (handled_of_map done))
  · -- checkQuorum
    cases done
    exact onward_stepCheckQuorum config raft
  · exact .of_ballot (ballot_stepProp done)
  · exact .of_ballot (ballot_stepFromPeer (handled_of_map done))

theorem onward_stepFollower (done : raft.stepFollower config message = some (next, flag)) :
    Onward config raft next := by
  unfold stepFollower at done
  split at done
  · -- prop
    split at done
    · cases done
      exact .refl _ _
    split at done
    · cases done
      exact .refl _ _
    exact .of_ballot (ballot_send (handled_of_map done))
  · -- app
    exact .of_ballot ((ballot_handleAppendEntries (handled_of_map done)).trans rfl)
  · -- heartbeat
    exact .of_ballot ((ballot_handleHeartbeat (handled_of_map done)).trans rfl)
  · -- transferLeader
    split at done
    · cases done
      exact .refl _ _
    exact .of_ballot (ballot_send (handled_of_map done))
  · -- timeoutNow
    exact onward_hup (handled_of_map done)
  · cases done
    exact .refl _ _

theorem onward_stepCandidate (done : raft.stepCandidate config message = some (next, flag))
    (termed : message.type = .app ∨ message.type = .heartbeat → message.term = raft.term) :
    Onward config raft next := by
  unfold stepCandidate at done
  split at done
  · -- prop
    cases done
    exact .refl _ _
  next isApp =>
    have same := ballot_handleAppendEntries (handled_of_map done)
    exact (onward_becomeFollower (termed (.inl isApp)).ge _).trans (.of_ballot same)
  next isHeartbeat =>
    have same := ballot_handleHeartbeat (handled_of_map done)
    exact (onward_becomeFollower (termed (.inr isHeartbeat)).ge _).trans (.of_ballot same)
  -- preVoteResp and voteResp count for the one who has asked for them
  · split at done
    · exact onward_stepVoteResp (handled_of_map done)
    · cases done
      exact .refl _ _
  · split at done
    · exact onward_stepVoteResp (handled_of_map done)
    · cases done
      exact .refl _ _
  · cases done
    exact .refl _ _

theorem onward_stepSameTerm (done : raft.stepSameTerm config message = some (next, flag))
    (termed : message.type = .app ∨ message.type = .heartbeat → message.term = raft.term) :
    Onward config raft next := by
  unfold stepSameTerm at done
  split at done
  · -- hup
    exact onward_hup (handled_of_map done)
  · -- storageAppendResp
    cases done
    refine .of_ballot ?_
    split <;> rfl
  · -- storageApplyResp
    split at done
    · cases done
      exact .refl _ _
    · obtain ⟨after, applies, done⟩ := bind_eq_some_iff.mp done
      obtain ⟨log, -, applied⟩ := bind_eq_some_iff.mp applies
      cases applied
      cases done
      exact .of_ballot rfl
  case h_4 | h_5 => -- vote and preVote
    exact onward_stepVote (handled_of_map done)
  · -- by role
    split at done
    · exact onward_stepLeader done
    · exact onward_stepFollower done
    · exact onward_stepCandidate done termed
    · exact onward_stepCandidate done termed

theorem onward_followTerm (higher : raft.term < message.term) : Onward config raft (raft.followTerm config message) := by
  unfold followTerm
  split
  · exact .refl _ _
  split
  · exact onward_becomeFollower higher.le _
  · exact onward_becomeFollower higher.le _

theorem followTerm_term (isApp : message.type = .app ∨ message.type = .heartbeat) :
    (raft.followTerm config message).term = message.term := by
  have follows : raft.followTerm config message = raft.becomeFollower config message.term message.fromId := by
    rcases isApp with isApp | isApp <;> simp [followTerm, isApp]
  rw [follows]
  exact congrArg Prod.fst (ballot_reset config raft message.term)

theorem ballot_stepLowerTerm (done : raft.stepLowerTerm config message = some next) : next.ballot = raft.ballot := by
  unfold stepLowerTerm at done
  split at done
  · exact ballot_send done
  split at done
  · exact ballot_send done
  · cases done
    rfl

theorem onward_step (done : raft.step config message = some (next, flag))
    (termed : message.type = .app ∨ message.type = .heartbeat → message.term ≠ 0) : Onward config raft next := by
  unfold step at done
  split at done
  next unset => exact onward_stepSameTerm done fun isApp => absurd unset (termed isApp)
  split at done
  next higher =>
    split at done
    · cases done
      exact .refl _ _
    · exact (onward_followTerm higher).trans (onward_stepSameTerm done fun isApp => (followTerm_term isApp).symm)
  next notHigher =>
    split at done
    · exact .of_ballot (ballot_stepLowerTerm (handled_of_map done))
    next notLower => exact onward_stepSameTerm done fun _ => by omega

/-- A message that the node sends itself has no term. -/
theorem onward_step_local (own : message.type ≠ .app ∧ message.type ≠ .heartbeat)
    (done : (raft.step config message).map Prod.fst = some next) : Onward config raft next := by
  obtain ⟨⟨after, flag⟩, stepped, same⟩ := map_eq_some_iff.mp done
  cases same
  exact onward_step stepped fun isApp => (isApp.elim own.1 own.2).elim

theorem onward_checkLeadership (done : raft.checkLeadership config = some next) : Onward config raft next := by
  unfold checkLeadership at done
  split at done
  · obtain ⟨checked, checks, rfl⟩ := map_eq_some_iff.mp done
    have onward : Onward config raft checked := by
      split at checks
      · exact (onward_step_local (by simp) checks).from_ballot rfl
      · cases checks
        exact .of_ballot rfl
    split
    · exact onward.trans (.of_ballot rfl)
    · exact onward
  · cases done
    exact .refl _ _

theorem onward_tick (done : raft.tick config = some next) : Onward config raft next := by
  unfold tick at done
  split at done
  · obtain ⟨checked, checks, done⟩ := bind_eq_some_iff.mp done
    have onward : Onward config raft checked := (onward_checkLeadership checks).from_ballot rfl
    split at done
    · cases done
      exact onward
    split at done
    · exact onward.trans ((onward_step_local (by simp) done).from_ballot rfl)
    · cases done
      exact onward
  · unfold tickElection at done
    simp only at done
    split at done
    · exact (onward_step_local (by simp) done).from_ballot rfl
    · cases done
      exact .of_ballot rfl

theorem ballot_sendAfterConfig (done : raft.sendAfterConfig config flag = some next) : next.ballot = raft.ballot := by
  unfold sendAfterConfig at done
  split at done
  · exact ballot_bcastAppend done
  · refine ballot_foldlM (fun {raft next peer} sends => ?_) done
    obtain ⟨⟨after, sent⟩, delivered, same⟩ := map_eq_some_iff.mp sends
    cases same
    exact ballot_maybeSendAppend delivered

theorem onward_applyConfChange {change : ConfChange} (done : raft.applyConfChange config change = some next) :
    Onward config raft next := by
  obtain ⟨trk, -, done⟩ := bind_eq_some_iff.mp done
  unfold switchToConfig at done
  simp only at done
  split at done
  · -- a leader that is removed or made a learner
    cases done
    split
    · exact Onward.from_ballot (onward_becomeFollower le_rfl 0) rfl
    · exact .of_ballot rfl
  split at done
  · cases done
    exact .of_ballot rfl
  obtain ⟨⟨committed, advanced⟩, commits, done⟩ := bind_eq_some_iff.mp done
  obtain ⟨told, tells, done⟩ := bind_eq_some_iff.mp done
  have same : told.ballot = raft.ballot :=
    (ballot_sendAfterConfig tells).trans ((ballot_maybeCommit commits).trans rfl)
  split at done
  · cases done
    exact .of_ballot same
  · cases done
    exact .of_ballot same

/-! ## Whole lives -/

/-- The calls of the interface, and a ready, which empties the outbox and moves
the log on. -/
inductive Call where
  | step (message : Message)
  | tick
  | applyConfChange (change : ConfChange)
  | acceptReady (log : RaftLog)

def call (config : Config) (raft : Raft) : Call → Option Raft
  | .step message => (raft.step config message).map Prod.fst
  | .tick => raft.tick config
  | .applyConfChange change => raft.applyConfChange config change
  | .acceptReady log => some { raft with msgs := [], msgsAfterAppend := [], log }

/-- The server keeps snapshots to itself; what a leader sends carries its term. -/
def termed (_ : Raft) : Call → Bool
  | .step message => message.type ≠ .snap ∧ (message.type = .app ∨ message.type = .heartbeat → message.term ≠ 0)
  | _ => true

theorem onward_call {step : Call} (allowed : termed raft step) (done : call config raft step = some next) :
    Onward config raft next := by
  cases step with
  | step message =>
    obtain ⟨⟨after, flag⟩, stepped, same⟩ := map_eq_some_iff.mp done
    cases same
    exact onward_step stepped (of_decide_eq_true allowed).2
  | tick => exact onward_tick done
  | applyConfChange change => exact onward_applyConfChange done
  | acceptReady log =>
    cases done
    exact .of_ballot rfl

theorem onward_of_runs {first last : Raft} {calls : List Call}
    (run : Runs (call config) (termed · ·) first calls last) : Onward config first last := by
  apply run.relates (fun _ => True) (Onward config) trivial (fun _ _ _ _ _ _ => trivial)
  · exact Onward.refl config
  · exact Onward.trans
  · exact fun _ _ _ _ => onward_call

def rivals : List Call :=
  [1, 3].map fun id => .step { type := .vote, fromId := id, term := 3, index := 2, logTerm := 1 }

/-- Two candidates ask for the vote of one term. -/
theorem onward_rivals : ∃ last, Runs (call (Example.config 2)) (termed · ·) Example.follower rivals last ∧
    last.vote = 1 ∧ Onward (Example.config 2) Example.follower last := by
  have found : (execute (call (Example.config 2)) (termed · ·) Example.follower rivals).map Raft.vote = some 1 := by
    decide +kernel
  obtain ⟨last, executed, vote⟩ := map_eq_some_iff.mp found
  exact ⟨last, runs_of_execute executed, vote, onward_of_runs (runs_of_execute executed)⟩

end RocksGraph.Eraft.Raft
