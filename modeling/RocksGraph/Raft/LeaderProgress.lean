import RocksGraph.Foundation.Transition
import RocksGraph.Raft.LogReads
import RocksGraph.Raft.Steps

/-! The progress of its peers in a leader (`tracker/progress.h`, `raft.h`).

What a peer has acknowledged lies before what is sent to it next, and that is
never more than one behind the log. Every function of a leader keeps this, but
one: a rejection that was answered before moves `next_` of a probed peer back,
even to what the peer has acknowledged since. -/

set_option autoImplicit false

namespace RocksGraph.Eraft

open Foundation Option Changer Table

/-- What sending does to the progress of a peer: `next_` moves on behind what is sent to a replicating one, and a peer
whose entries are gone waits for a snapshot. -/
structure Progress.Onward (log : RaftLog) (before after : Progress) : Prop where
  matched : after.matched = before.matched
  next : after.next = before.next ∨
    before.state = .replicate ∧ before.next ≤ after.next ∧ after.next ≤ log.lastIndex + 1
  state : after.state = before.state ∨ after.state = .snapshot
  pending : after.pendingSnapshot = before.pendingSnapshot ∨ after.pendingSnapshot = log.boundary

namespace Progress.Onward

variable {log : RaftLog} {before middle after : Progress}

theorem refl (log : RaftLog) (progress : Progress) : Onward log progress progress :=
  ⟨rfl, .inl rfl, .inl rfl, .inl rfl⟩

theorem trans (first : Onward log before middle) (second : Onward log middle after) : Onward log before after where
  matched := second.matched.trans first.matched
  next := by
    rcases second.next with same | ⟨replicating, more, inside⟩
    · rw [same]
      exact first.next
    · have was : before.state = .replicate := by
        rcases first.state with same | snapshot
        · exact same.symm.trans replicating
        · rw [snapshot] at replicating
          cases replicating
      rcases first.next with same | ⟨-, advanced, -⟩
      · exact .inr ⟨was, same ▸ more, inside⟩
      · exact .inr ⟨was, advanced.trans more, inside⟩
  state := by
    rcases second.state with same | snapshot
    · rw [same]
      exact first.state
    · exact .inr snapshot
  pending := by
    rcases second.pending with same | boundary
    · rw [same]
      exact first.pending
    · exact .inr boundary

theorem updateOnEntriesSend {entries bytes : Nat}
    (inside : entries = 0 ∨ before.next + entries ≤ log.lastIndex + 1)
    (done : before.updateOnEntriesSend entries bytes before.next = some after) : Onward log before after := by
  unfold Progress.updateOnEntriesSend at done
  split at done
  next replicating =>
    split at done
    · obtain ⟨inflights, _, done⟩ := bind_eq_some_iff.mp done
      cases done
      refine ⟨rfl, .inr ⟨replicating, ?_, ?_⟩, .inl rfl, .inl rfl⟩ <;> simp only <;> omega
    · cases done
      exact ⟨rfl, .inl rfl, .inl rfl, .inl rfl⟩
  · obtain rfl := some.inj done
    split <;> exact ⟨rfl, .inl rfl, .inl rfl, .inl rfl⟩
  · cases done

end Progress.Onward

namespace Raft

variable {config : Config} {raft middle next : Raft}

structure Aims (raft next : Raft) : Prop where
  log : next.log = raft.log
  onward : ∀ id after, next.trk.progress.get id = some after →
    ∃ before, raft.trk.progress.get id = some before ∧ before.Onward raft.log after
  tracked : ∀ id before, raft.trk.progress.get id = some before → ∃ after, next.trk.progress.get id = some after

theorem Aims.of_trk (log : next.log = raft.log) (trk : next.trk = raft.trk) : Aims raft next := by
  refine ⟨log, fun id after known => ?_, fun id before known => ?_⟩
  · rw [trk] at known
    exact ⟨after, known, .refl _ _⟩
  · rw [trk]
    exact ⟨before, known⟩

theorem Aims.refl (raft : Raft) : Aims raft raft := .of_trk rfl rfl

theorem Aims.trans (first : Aims raft middle) (second : Aims middle next) : Aims raft next := by
  refine ⟨second.log.trans first.log, fun id after known => ?_, fun id before known => ?_⟩
  · obtain ⟨between, isBetween, later⟩ := second.onward id after known
    obtain ⟨before, isBefore, earlier⟩ := first.onward id between isBetween
    rw [first.log] at later
    exact ⟨before, isBefore, earlier.trans later⟩
  · obtain ⟨between, isBetween⟩ := first.tracked id before known
    exact second.tracked id between isBetween

variable {peer : Nat}

theorem Aims.setProgress {before after : Progress}
    (known : raft.trk.progress.get peer = some before) (onward : before.Onward raft.log after) :
    Aims raft (raft.setProgress peer after) := by
  refine ⟨rfl, forall_get_put ⟨before, known, onward⟩ fun id found isFound => ⟨found, isFound, .refl _ _⟩, ?_⟩
  intro id found isFound
  simp only [Raft.setProgress, Tracker.setProgress, get_put]
  split
  · exact ⟨after, rfl⟩
  · exact ⟨found, isFound⟩

theorem aims_send {message : Message} (done : raft.send config message = some next) : Aims raft next :=
  .of_trk (core_log (sent_of_send done).core) (sent_of_send done).trk

theorem aims_sendSnapshot {progress : Progress} {sent : Bool}
    (known : raft.trk.progress.get peer = some progress)
    (done : raft.sendSnapshot config peer progress = some (next, sent)) : Aims raft next := by
  unfold sendSnapshot at done
  split at done
  · cases done
    exact .refl _
  · split at done
    · cases done
      exact .refl _
    next boundary captured =>
      obtain ⟨after, delivered, done⟩ := bind_eq_some_iff.mp done
      cases done
      apply Aims.trans (.setProgress known _) (aims_send delivered)
      have index : boundary.index = raft.log.boundary := by
        unfold LogStore.snapshot at captured
        split at captured
        · cases captured
        · cases captured
          rfl
      exact ⟨rfl, .inl rfl, .inr rfl, .inr index⟩

section

variable (shaped : raft.log.Shaped)
include shaped

theorem aims_maybeSendAppend {sendIfEmpty sent : Bool}
    (done : raft.maybeSendAppend config peer sendIfEmpty = some (next, sent)) : Aims raft next := by
  obtain ⟨progress, known, done⟩ := bind_eq_some_iff.mp done
  split at done
  · cases done
    exact .refl _
  · obtain ⟨fetched, read, done⟩ := bind_eq_some_iff.mp done
    split at done
    · split at done
      · cases done
        exact .refl _
      · obtain ⟨after, updated, done⟩ := bind_eq_some_iff.mp done
        obtain ⟨final, delivered, done⟩ := bind_eq_some_iff.mp done
        cases done
        apply Aims.trans (.setProgress known _) (aims_send delivered)
        apply Progress.Onward.updateOnEntriesSend _ updated
        unfold nextEntries at read
        split at read
        · unfold RaftLog.entries at read
          split at read
          · cases read
            exact .inl rfl
          have few := (shaped.slice read).2.length_le
          have range : (raft.log.range progress.next (raft.log.lastIndex + 1)).length ≤ _ := List.length_take_le _ _
          omega
        · cases read
          exact .inl rfl
    · split at done
      · cases done
        exact .refl _
      · exact aims_sendSnapshot known done
    · split at done
      · cases done
        exact .refl _
      · exact aims_sendSnapshot known done

theorem aims_sendAppend (done : raft.sendAppend config peer = some next) : Aims raft next := by
  obtain ⟨⟨after, sent⟩, delivered, done⟩ := bind_eq_some_iff.mp done
  cases done
  exact aims_maybeSendAppend shaped delivered

theorem aims_sendAppends {fuel : Nat}
    (done : sendAppends config peer fuel raft = some next) : Aims raft next := by
  induction fuel generalizing raft with
  | zero =>
    cases done
    exact .refl _
  | succ fuel ih =>
    obtain ⟨⟨after, sent⟩, delivered, done⟩ := bind_eq_some_iff.mp done
    have first : Aims raft after := aims_maybeSendAppend shaped delivered
    simp only at done
    split at done
    · exact first.trans (ih (first.log ▸ shaped) done)
    · cases done
      exact first

theorem aims_visitPeers {act : Raft → Nat → Option Raft}
    (each : ∀ raft peer next, raft.log.Shaped → act raft peer = some next → Aims raft next)
    (done : raft.visitPeers config act = some next) : Aims raft next := by
  unfold visitPeers at done
  generalize raft.trk.peers.filter (· ≠ config.id) = peers at done
  induction peers generalizing raft with
  | nil =>
    cases done
    exact .refl _
  | cons peer rest ih =>
    obtain ⟨after, visited, done⟩ := bind_eq_some_iff.mp done
    have first := each raft peer after shaped visited
    exact first.trans (ih (first.log ▸ shaped) done)

theorem aims_bcastAppend (done : raft.bcastAppend config = some next) : Aims raft next :=
  aims_visitPeers shaped (fun _ _ _ shaped sent => aims_sendAppend shaped sent) done

theorem aims_bcastHeartbeat (done : raft.bcastHeartbeat config = some next) : Aims raft next := by
  apply aims_visitPeers shaped _ done
  intro raft peer after _ sent
  obtain ⟨progress, _, delivered⟩ := bind_eq_some_iff.mp sent
  exact aims_send delivered

end

end Raft

/-- What is acknowledged lies before what is sent next, and both lie in the log or right behind it. -/
structure Progress.Fits (last : Nat) (progress : Progress) : Prop where
  before : progress.matched < progress.next
  inside : progress.next ≤ last + 1
  pending : progress.pendingSnapshot ≤ last

namespace Progress.Fits

variable {last : Nat} {progress : Progress}

theorem mono {later : Nat} (more : last ≤ later) (fits : progress.Fits last) : progress.Fits later :=
  ⟨fits.before, fits.inside.trans (Nat.add_le_add_right more 1), fits.pending.trans more⟩

theorem onward {log : RaftLog} {after : Progress} (shaped : log.Shaped)
    (fits : progress.Fits log.lastIndex) (onward : progress.Onward log after) : after.Fits log.lastIndex := by
  have last := shaped.lastIndex_eq
  obtain ⟨before, inside, pending⟩ := fits
  refine ⟨?_, ?_, ?_⟩
  · rw [onward.matched]
    rcases onward.next with same | ⟨-, more, -⟩ <;> omega
  · rcases onward.next with same | ⟨-, -, within⟩ <;> omega
  · rcases onward.pending with same | boundary <;> omega

section

variable (fits : progress.Fits last)
include fits

theorem becomeProbe : progress.becomeProbe.Fits last := by
  obtain ⟨before, inside, pending⟩ := fits
  unfold Progress.becomeProbe
  split
  · refine ⟨?_, ?_, Nat.zero_le _⟩ <;> simp only [Progress.resetState] <;> omega
  · refine ⟨?_, ?_, Nat.zero_le _⟩ <;> simp only [Progress.resetState] <;> omega

theorem becomeReplicate : progress.becomeReplicate.Fits last := by
  obtain ⟨before, inside, pending⟩ := fits
  refine ⟨?_, ?_, Nat.zero_le _⟩ <;> simp only [Progress.becomeReplicate, Progress.resetState] <;> omega

theorem maybeUpdate {index : Nat} (within : index ≤ last) :
    (progress.maybeUpdate index).1.Fits last := by
  obtain ⟨before, inside, pending⟩ := fits
  unfold Progress.maybeUpdate
  simp only
  split <;> refine ⟨?_, ?_, pending⟩ <;> simp only <;> omega

theorem maybeDecrTo {rejected matchHint : Nat} {after : Progress}
    (current : progress.state ≠ .replicate → progress.next - 1 = rejected →
      progress.matched = 0 ∨ progress.matched < rejected ∧ progress.matched ≤ matchHint)
    (done : progress.maybeDecrTo rejected matchHint = some after) : after.Fits last := by
  obtain ⟨before, inside, pending⟩ := fits
  unfold Progress.maybeDecrTo at done
  split at done
  · split at done
    · cases done
    · cases done
      refine ⟨?_, ?_, pending⟩ <;> simp only <;> omega
  next other =>
    split at done
    · cases done
    cases done
    have fresh := current other (by omega)
    refine ⟨?_, ?_, pending⟩ <;> simp only <;> omega

end

end Progress.Fits

namespace Raft

variable {config : Config} {raft next : Raft}

/-- What holds of a leader: the progress of every peer fits its log, which has the entry of its election. -/
structure Leading (raft : Raft) : Prop where
  log : raft.log.Ok
  begun : 0 < raft.log.lastIndex
  fits : ∀ id progress, raft.trk.progress.get id = some progress → progress.Fits raft.log.lastIndex

namespace Leading

theorem of_aims (leading : raft.Leading) (aims : Aims raft next) : next.Leading where
  log := aims.log ▸ leading.log
  begun := aims.log ▸ leading.begun
  fits id after known := by
    obtain ⟨before, isBefore, onward⟩ := aims.onward id after known
    rw [aims.log]
    exact (leading.fits id before isBefore).onward leading.log.toShaped onward

theorem setProgress (leading : raft.Leading) {peer : Nat} {progress : Progress}
    (fits : progress.Fits raft.log.lastIndex) : (raft.setProgress peer progress).Leading :=
  { leading with fits := forall_get_put fits leading.fits }

theorem of_trk (leading : raft.Leading) (log : next.log.Ok)
    (more : raft.log.lastIndex ≤ next.log.lastIndex) (trk : next.trk = raft.trk) : next.Leading where
  log := log
  begun := lt_of_lt_of_le leading.begun more
  fits id progress known := (leading.fits id progress (trk ▸ known)).mono more

theorem maybeCommit (leading : raft.Leading) {advanced : Bool} (done : raft.maybeCommit = some (next, advanced)) :
    next.Leading := by
  obtain ⟨⟨log, moved⟩, counted, done⟩ := bind_eq_some_iff.mp done
  cases done
  unfold RaftLog.maybeCommit at counted
  split at counted
  · obtain ⟨_, committed, same⟩ := map_eq_some_iff.mp counted
    cases same
    have last : log.lastIndex = raft.log.lastIndex := by
      obtain ⟨rfl, -⟩ := RaftLog.commitTo_eq committed
      rfl
    exact leading.of_trk (leading.log.commitTo committed) (le_of_eq last.symm) rfl
  · cases counted
    exact leading

end Leading

theorem log_appendEntry (ok : raft.log.Ok) {payloads : List Payload} {appended : Bool}
    (nonempty : payloads ≠ []) (done : raft.appendEntry config payloads = some (next, appended)) :
    next.log.Ok ∧ next.trk = raft.trk ∧ raft.log.lastIndex ≤ next.log.lastIndex ∧
      (appended = true → raft.log.lastIndex < next.log.lastIndex) := by
  rcases appendEntry_cases done with ⟨rfl, rfl⟩ | ⟨rfl, log, written, core, trk, -⟩
  · exact ⟨ok, rfl, Nat.le.refl, fun absurd => by cases absurd⟩
  have same : next.log = log := congrArg Core.log core
  have entries : numberEntries raft.term (raft.log.lastIndex + 1) payloads ≠ [] := by
    intro none
    have length := congrArg List.length none
    rw [length_numberEntries] at length
    exact nonempty (List.length_eq_zero_iff.mp length)
  obtain ⟨after, storage, suffix, -⟩ := ok.append_last entries (consecutive_numberEntries _ _ _) written
  have boundary : log.boundary = raft.log.boundary := by rw [RaftLog.boundary, storage]; rfl
  have last := ok.toShaped.lastIndex_eq
  have later := after.toShaped.lastIndex_eq
  have some := List.length_pos_iff.mpr entries
  rw [suffix, List.length_append] at later
  rw [same]
  exact ⟨after, trk, by omega, fun _ => by omega⟩

theorem fits_reset (raft : Raft) (term id : Nat) {progress : Progress}
    (known : (raft.reset config term).trk.progress.get id = some progress) :
    progress.Fits raft.log.lastIndex := by
  obtain ⟨table, same, fresh⟩ := reset_trk raft term
  rw [same] at known
  obtain ⟨old, rfl⟩ := fresh id progress known
  refine ⟨?_, Nat.le.refl, Nat.zero_le _⟩
  simp only [freshProgress]
  split <;> omega

theorem Leading.becomeFollower (leading : raft.Leading) (term lead : Nat) :
    (raft.becomeFollower config term lead).Leading := by
  have spec : Reset config raft term (raft.reset config term) := reset_spec raft term
  have log : (raft.becomeFollower config term lead).log = raft.log := congrArg Core.log spec.core
  refine ⟨log ▸ leading.log, log ▸ leading.begun, fun id progress known => ?_⟩
  rw [log]
  exact fits_reset raft term id known

theorem fits_foldl_setProgress {fits : Progress → Prop} {change : Nat → Progress → Progress}
    (kept : ∀ id progress, fits progress → fits (change id progress)) (ids : List Nat) {trk : Tracker}
    (all : ∀ id progress, trk.progress.get id = some progress → fits progress) :
    ∀ id progress, (ids.foldl (fun trk id =>
      match trk.progress.get id with
      | some old => trk.setProgress id (change id old)
      | none => trk) trk).progress.get id = some progress → fits progress := by
  refine List.foldlRecOn
    (motive := fun trk : Tracker => ∀ id progress, trk.progress.get id = some progress → fits progress)
    ids _ all fun trk all head _ => ?_
  split
  next before old =>
    exact forall_get_put (kept head before (all head before old)) all
  · exact all

theorem Leading.stepCheckQuorum (leading : raft.Leading) : (raft.stepCheckQuorum config).Leading := by
  -- What follows the check forgets only which peers were active.
  have forget {middle : Raft} (leading : middle.Leading) : Leading { middle with
      trk := middle.trk.peers.foldl (fun trk id =>
        match trk.progress.get id with
        | some progress => trk.setProgress id
            (if id = config.id then progress else { progress with recentActive := false })
        | none => trk) middle.trk } := by
    refine ⟨leading.log, leading.begun, fits_foldl_setProgress (fun id progress fits => ?_) _ leading.fits⟩
    split
    · exact fits
    · exact ⟨fits.before, fits.inside, fits.pending⟩
  unfold Raft.stepCheckQuorum
  split
  · exact forget leading
  · exact forget (leading.becomeFollower _ _)

/-! ## Messages -/

/-- The index that a rejection leads a leader to probe next: its hint, or the end of the terms up to that of the hint. -/
def probeHint (raft : Raft) (message : Message) : Nat :=
  if message.logTerm > 0 then (raft.log.findConflictByTerm message.rejectHint message.logTerm).1
  else message.rejectHint

/-- A rejection that would take the probes of a peer back does not take them before what the peer has acknowledged. -/
def Current (raft : Raft) (message : Message) (progress : Progress) : Prop :=
  progress.state ≠ .replicate → progress.next - 1 = message.index →
    progress.matched = 0 ∨ progress.matched < message.index ∧ progress.matched ≤ raft.probeHint message

namespace Leading

variable {message : Message} {progress : Progress}

section

variable (leading : raft.Leading)
include leading

section

variable (fits : progress.Fits raft.log.lastIndex)
include fits

theorem stepAppReject (current : raft.Current message progress)
    (done : raft.stepAppReject config message progress = some next) : next.Leading := by
  unfold Raft.stepAppReject at done
  simp only at done
  split at done
  · cases done
    exact leading
  next lowered decreased =>
    have lower : lowered.Fits raft.log.lastIndex := fits.maybeDecrTo current decreased
    split at done
    · exact (leading.setProgress lower.becomeProbe).of_aims (aims_sendAppend leading.log.toShaped done)
    · exact (leading.setProgress lower).of_aims (aims_sendAppend leading.log.toShaped done)

omit leading in
theorem acknowledged (index : Nat) : (raft.acknowledged index progress).Fits raft.log.lastIndex := by
  unfold Raft.acknowledged
  split
  · exact fits.becomeReplicate
  · split
    · exact fits.becomeProbe.becomeReplicate
    · exact fits
  · exact ⟨fits.before, fits.inside, fits.pending⟩

theorem stepAppAccept (within : message.index ≤ raft.log.lastIndex)
    (done : raft.stepAppAccept config message progress = some next) : next.Leading := by
  have updated : (progress.maybeUpdate message.index).1.Fits raft.log.lastIndex := fits.maybeUpdate within
  unfold Raft.stepAppAccept at done
  simp only at done
  split at done
  · obtain ⟨⟨counted, advanced⟩, committed, done⟩ := bind_eq_some_iff.mp done
    obtain ⟨told, delivered, done⟩ := bind_eq_some_iff.mp done
    obtain ⟨caught, followed, done⟩ := bind_eq_some_iff.mp done
    have first := (leading.setProgress (acknowledged updated message.index)).maybeCommit committed
    have second : told.Leading := by
      unfold sendAfterAck at delivered
      split at delivered
      · exact first.of_aims (aims_bcastAppend first.log.toShaped delivered)
      split at delivered
      · exact first.of_aims (aims_sendAppend first.log.toShaped delivered)
      · cases delivered
        exact first
    have third : caught.Leading := by
      unfold catchUp at followed
      split at followed
      · exact second.of_aims (aims_sendAppends second.log.toShaped followed)
      · cases followed
        exact second
    split at done
    · exact third.of_aims (aims_send done)
    · cases done
      exact third
  · cases done
    exact leading.setProgress updated

theorem stepAppResp (current : message.reject = true → raft.Current message progress)
    (within : message.reject = false → message.index ≤ raft.log.lastIndex)
    (done : raft.stepAppResp config message progress = some next) : next.Leading := by
  have active : Progress.Fits raft.log.lastIndex { progress with recentActive := true } :=
    ⟨fits.before, fits.inside, fits.pending⟩
  have set : (raft.setProgress message.fromId { progress with recentActive := true }).Leading :=
    leading.setProgress active
  unfold Raft.stepAppResp at done
  split at done
  next rejected =>
    exact set.stepAppReject active (current rejected) done
  next accepted =>
    exact set.stepAppAccept active (within (by simpa using accepted)) done

end

theorem stepTransferLeader
    (done : raft.stepTransferLeader config message progress = some next) : next.Leading := by
  unfold Raft.stepTransferLeader at done
  split at done
  · cases done
    exact leading
  · split at done
    · cases done
      exact leading
    · simp only at done
      have aborted : raft.abortLeaderTransfer.Leading := ⟨leading.log, leading.begun, leading.fits⟩
      split at done
      · cases done
        exact aborted
      · have asked : Leading { raft.abortLeaderTransfer with
            electionElapsed := 0
            leadTransferee := message.fromId } := ⟨leading.log, leading.begun, leading.fits⟩
        split at done
        · exact asked.of_aims (aims_send done)
        · exact asked.of_aims (aims_sendAppend leading.log.toShaped done)

theorem stepFromPeer (current : message.type = .appResp → message.reject = true → ∀ progress,
      raft.trk.progress.get message.fromId = some progress → raft.Current message progress)
    (within : message.type = .appResp → message.reject = false → message.index ≤ raft.log.lastIndex)
    (done : raft.stepFromPeer config message = some next) : next.Leading := by
  unfold Raft.stepFromPeer at done
  split at done
  · cases done
    exact leading
  next progress known =>
    have fits := leading.fits _ progress known
    split at done
    next isResp =>
      exact leading.stepAppResp fits (fun rejected => current isResp rejected progress known) (within isResp) done
    · have active : Progress.Fits raft.log.lastIndex
          { progress with recentActive := true, msgAppFlowPaused := false } :=
        ⟨fits.before, fits.inside, fits.pending⟩
      have set : (raft.setProgress message.fromId
          { progress with recentActive := true, msgAppFlowPaused := false }).Leading := leading.setProgress active
      unfold stepHeartbeatResp at done
      simp only at done
      split at done
      · exact set.of_aims (aims_sendAppend set.log.toShaped done)
      · cases done
        exact set
    · cases done
      unfold stepSnapStatus
      split
      · exact leading
      have told : Progress.Fits raft.log.lastIndex
          (if message.reject then { progress with pendingSnapshot := 0 } else progress) := by
        split
        · exact ⟨fits.before, fits.inside, Nat.zero_le _⟩
        · exact fits
      have probed := told.becomeProbe
      exact leading.setProgress ⟨probed.before, probed.inside, probed.pending⟩
    · cases done
      unfold stepUnreachable
      split
      · exact leading.setProgress fits.becomeProbe
      · exact leading
    · exact leading.stepTransferLeader done
    · cases done
      exact leading

theorem stepProp {accepted : Bool}
    (done : raft.stepProp config message = some (next, accepted)) : next.Leading := by
  unfold Raft.stepProp at done
  split at done
  · cases done
  rename_i nonempty
  split at done
  · cases done
    exact leading
  · split at done
    · cases done
      exact leading
    · obtain ⟨⟨after, appended⟩, extended, done⟩ := bind_eq_some_iff.mp done
      generalize payloads : message.entries.map Entry.payload = asked at extended
      obtain ⟨frame, -⟩ := admitPayloads_frame config 0 asked raft
      have admitted : (raft.admitPayloads config 0 asked).1.Leading := by
        rw [frame]
        exact ⟨leading.log, leading.begun, leading.fits⟩
      have some : (raft.admitPayloads config 0 asked).2 ≠ [] := by
        intro none
        have length := length_admitPayloads config asked raft 0
        rw [none, ← payloads, List.length_map] at length
        exact nonempty (by rw [List.isEmpty_iff, List.length_eq_zero_iff.mp length.symm])
      obtain ⟨ok, trk, more, -⟩ := log_appendEntry admitted.log some extended
      have grown : after.Leading := admitted.of_trk ok more trk
      cases appended with
      | false =>
        cases done
        exact grown
      | true =>
        obtain ⟨final, delivered, done⟩ := bind_eq_some_iff.mp done
        cases done
        exact grown.of_aims (aims_bcastAppend grown.log.toShaped delivered)

theorem stepLeader {accepted : Bool}
    (current : message.type = .appResp → message.reject = true → ∀ progress,
      raft.trk.progress.get message.fromId = some progress → raft.Current message progress)
    (within : message.type = .appResp → message.reject = false → message.index ≤ raft.log.lastIndex)
    (done : raft.stepLeader config message = some (next, accepted)) : next.Leading := by
  unfold Raft.stepLeader at done
  split at done
  · obtain ⟨after, delivered, same⟩ := map_eq_some_iff.mp done
    cases same
    exact leading.of_aims (aims_bcastHeartbeat leading.log.toShaped delivered)
  · cases done
    exact leading.stepCheckQuorum
  · exact leading.stepProp done
  · obtain ⟨after, stepped, same⟩ := map_eq_some_iff.mp done
    cases same
    exact leading.stepFromPeer current within stepped

end

end Leading

theorem fits_apply {last : Nat} (begun : 0 < last) {trk : Tracker}
    (fits : ∀ id progress, trk.progress.get id = some progress → progress.Fits last)
    (type : ConfChangeType) (nodeId : Nat) :
    ∀ id progress, (Changer.apply last trk type nodeId).progress.get id = some progress →
      progress.Fits last := by
  have init (isLearner : Bool) : ∀ id progress,
      (initProgress last trk nodeId isLearner).progress.get id = some progress → progress.Fits last :=
    forall_get_put ⟨begun, Nat.le_succ last, Nat.zero_le last⟩ fits
  have removed : ∀ id progress, (Changer.remove trk nodeId).progress.get id = some progress → progress.Fits last := by
    unfold Changer.remove
    split
    · exact fits
    · exact fun id progress found => fits id progress (get_erase_eq_some.mp found).2
  unfold Changer.apply
  split
  · exact fits
  split
  · unfold makeVoter
    split
    · exact init false
    next old isOld =>
      have before := fits nodeId old isOld
      exact forall_get_put ⟨before.before, before.inside, before.pending⟩ fits
  · unfold makeLearner
    split
    · exact init true
    next old isOld =>
      have before := fits nodeId old isOld
      split
      · exact fits
      · exact forall_get_put ⟨before.before, before.inside, before.pending⟩ removed
  · exact removed
  · exact fits

theorem Leading.applyConfChange (leading : raft.Leading) {change : ConfChange}
    (done : raft.applyConfChange config change = some next) : next.Leading := by
  obtain ⟨trk, changed, done⟩ := bind_eq_some_iff.mp done
  have applied : trk = Changer.apply raft.log.lastIndex raft.trk change.type change.nodeId := by
    unfold simple at changed
    simp only at changed
    repeat' split at changed
    all_goals cases changed
    rfl
  have switched (isLearner : Bool) : Leading { raft with trk, isLearner } := by
    refine ⟨leading.log, leading.begun, ?_⟩
    rw [applied]
    exact fits_apply leading.begun leading.fits change.type change.nodeId
  unfold switchToConfig at done
  simp only at done
  split at done
  · cases done
    split
    · exact (switched _).becomeFollower _ _
    · exact switched _
  · split at done
    · cases done
      exact switched _
    · obtain ⟨⟨counted, advanced⟩, committed, done⟩ := bind_eq_some_iff.mp done
      obtain ⟨told, delivered, done⟩ := bind_eq_some_iff.mp done
      have first : counted.Leading := (switched _).maybeCommit committed
      have second : told.Leading := by
        unfold sendAfterConfig at delivered
        split at delivered
        · exact first.of_aims (aims_bcastAppend first.log.toShaped delivered)
        apply first.of_aims (aims_visitPeers first.log.toShaped _ delivered)
        intro raft peer after shaped visited
        obtain ⟨⟨sent, _⟩, appended, same⟩ := map_eq_some_iff.mp visited
        cases same
        exact aims_maybeSendAppend shaped appended
      split at done
      · cases done
        exact ⟨second.log, second.begun, second.fits⟩
      · cases done
        exact second

def Elected (config : Config) (leader : Raft) : Prop :=
  ∃ candidate elected : Raft, candidate.log.Ok ∧ candidate.becomeLeader config = some elected ∧
    elected.bcastAppend config = some leader

theorem Elected.leading {leader : Raft} (elected : Elected config leader) : leader.Leading := by
  obtain ⟨candidate, begun, ok, became, sent⟩ := elected
  suffices first : begun.Leading from first.of_aims (aims_bcastAppend first.log.toShaped sent)
  unfold becomeLeader at became
  split at became
  · cases became
  obtain ⟨progress, known, became⟩ := bind_eq_some_iff.mp became
  obtain ⟨⟨after, appended⟩, extended, became⟩ := bind_eq_some_iff.mp became
  have spec : Reset config candidate candidate.term (candidate.reset config candidate.term) := reset_spec candidate _
  have log : (candidate.reset config candidate.term).log = candidate.log := congrArg Core.log spec.core
  cases appended with
  | false => cases became
  | true =>
    cases became
    obtain ⟨grown, trk, -, more⟩ := log_appendEntry (by simpa [setProgress, log] using ok) (by simp) extended
    have later := more rfl
    simp only [log] at later
    have self := (fits_reset candidate candidate.term config.id known).becomeReplicate
    refine ⟨grown, Nat.lt_of_le_of_lt (Nat.zero_le _) later, ?_⟩
    rw [trk]
    apply forall_get_put
    · exact .mono (Nat.le_of_lt later) ⟨self.before, self.inside, self.pending⟩
    · exact fun id _ isFound => (fits_reset candidate candidate.term id isFound).mono (Nat.le_of_lt later)

end Raft

namespace Raft.Example

def config (id : Nat) : Config where
  id := id
  electionTick := 10
  heartbeatTick := 1
  maxSizePerMsg := 2
  maxCommittedSizePerReady := 100
  maxUncommittedEntriesSize := 100
  maxInflightMsgs := 256
  maxInflightBytes := 0
  checkQuorum := true
  preVote := true
  disableProposalForwarding := false
  disableConfChangeValidation := false
  stepDownOnRemoval := true
  sizes := ⟨fun _ => 1, fun _ => 1⟩
  random := fun _ => 0

def entry (index : Nat) : Entry := ⟨1, index, .normal []⟩

def node (id : Nat) (entries : List Entry) (state : StateType) : Raft :=
  { unloaded (config id) ⟨0, 0, entries, ⟨1, 0, 0⟩⟩ 0 with
    term := 2
    state
    trk := Changer.makeVoter 4 (Changer.makeVoter 4 (.new 256 0) 1) 2 }

def candidate : Raft := node 1 [entry 1, entry 2, entry 3, entry 4] .candidate

def follower : Raft := node 2 [entry 1, entry 2] .follower

end Raft.Example

end RocksGraph.Eraft
