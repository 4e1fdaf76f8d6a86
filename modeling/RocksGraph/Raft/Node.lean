import RocksGraph.Raft.Log
import RocksGraph.Raft.Tracker

/-! The raft state machine of one node (`raft.h`).

Reads through the leader are left out: the driver never asks for one. A
function that can end the process returns an option, as those of the log. -/

set_option autoImplicit false

namespace RocksGraph.Eraft

open Foundation

inductive StateType where
  | follower
  | candidate
  | leader
  | preCandidate
  deriving DecidableEq, Repr

inductive CampaignType where
  | preElection
  | election
  | transfer
  deriving DecidableEq, Repr

/-- `eraft::Config`, with the sizes of entries and the numbers that `random`
yields, counted over the life of the node. -/
structure Config where
  id : Nat
  electionTick : Nat
  heartbeatTick : Nat
  maxSizePerMsg : Nat
  maxCommittedSizePerReady : Nat
  maxUncommittedEntriesSize : Nat
  maxInflightMsgs : Nat
  maxInflightBytes : Nat
  checkQuorum : Bool
  preVote : Bool
  disableProposalForwarding : Bool
  disableConfChangeValidation : Bool
  stepDownOnRemoval : Bool
  sizes : Sizes
  random : Nat → Nat

structure Raft where
  term : Nat
  vote : Nat
  log : RaftLog
  trk : Tracker
  state : StateType
  isLearner : Bool
  msgs : List Message
  msgsAfterAppend : List Message
  lead : Nat
  leadTransferee : Nat
  pendingConfIndex : Nat
  uncommittedSize : Nat
  electionElapsed : Nat
  heartbeatElapsed : Nat
  randomizedElectionTimeout : Nat
  draws : Nat

namespace Raft

variable (config : Config)

variable (raft : Raft)

def hardState : HardState := ⟨raft.term, raft.vote, raft.log.committed⟩

def MessageType.isVoting : MessageType → Bool
  | .vote | .voteResp | .preVote | .preVoteResp => true
  | _ => false

/-- Responses that wait until the unstable state they rest on is stored. -/
def MessageType.isAfterAppend : MessageType → Bool
  | .appResp | .voteResp | .preVoteResp => true
  | _ => false

variable (message : Message)

def stamp : Option Message :=
  let message := { message with fromId := if message.fromId = 0 then config.id else message.fromId }
  if MessageType.isVoting message.type then
    if message.term = 0 then none else some message
  else if message.term ≠ 0 then none
  else if message.type = .prop then some message
  else some { message with term := raft.term }

def send : Option Raft := do
  let message ← raft.stamp config message
  if MessageType.isAfterAppend message.type then
    return { raft with msgsAfterAppend := raft.msgsAfterAppend ++ [message] }
  else if message.toId = config.id then none
  else return { raft with msgs := raft.msgs ++ [message] }

def setProgress (raft : Raft) (id : Nat) (progress : Progress) : Raft :=
  { raft with trk := raft.trk.setProgress id progress }

variable (peer : Nat)

/-- Send the snapshot trigger when the entries before `next` are gone. -/
def sendSnapshot (progress : Progress) : Option (Raft × Bool) :=
  if !progress.recentActive then some (raft, false)
  else match raft.log.storage.snapshot with
    | none => some (raft, false)
    | some boundary => do
      let raft := raft.setProgress peer (progress.becomeSnapshot boundary.index)
      let raft ← raft.send config { type := .snap, toId := peer, snapshot := boundary }
      return (raft, true)

variable (progress : Progress)

def nextEntries : Option (Except LogError (List Entry)) :=
  if progress.state ≠ .replicate ∨ !progress.inflights.full then
    raft.log.entries config.sizes progress.next config.maxSizePerMsg
  else some (.ok [])

def maybeSendAppend (sendIfEmpty : Bool) : Option (Raft × Bool) := do
  let progress ← raft.trk.progress.get peer
  if progress.isPaused then return (raft, false)
  let lastIndex := progress.next - 1
  let entries ← raft.nextEntries config progress
  match raft.log.term lastIndex, entries with
  | .ok lastTerm, .ok entries =>
    if entries.isEmpty ∧ !sendIfEmpty then return (raft, false)
    let progress ← progress.updateOnEntriesSend entries.length (payloadsSize config.sizes entries)
      progress.next
    let raft := raft.setProgress peer progress
    let raft ← raft.send config {
      type := .app
      toId := peer
      index := lastIndex
      logTerm := lastTerm
      entries
      commit := raft.log.committed }
    return (raft, true)
  | .error _, .ok entries =>
    if entries.isEmpty ∧ !sendIfEmpty then return (raft, false)
    raft.sendSnapshot config peer progress
  | _, .error _ =>
    if !sendIfEmpty then return (raft, false)
    raft.sendSnapshot config peer progress

def sendAppend : Option Raft := do
  let (raft, _) ← raft.maybeSendAppend config peer true
  return raft

/-- Send until nothing is left to send or the peer is paused. Every message
carries an entry, so the log bounds their number. -/
def sendAppends (peer : Nat) : Nat → Raft → Option Raft
  | 0, raft => some raft
  | fuel + 1, raft => do
    let (raft, sent) ← raft.maybeSendAppend config peer false
    if sent then sendAppends peer fuel raft else return raft

def sendHeartbeat : Option Raft := do
  let progress ← raft.trk.progress.get peer
  raft.send config {
    type := .heartbeat
    toId := peer
    commit := min progress.matched raft.log.committed }

def visitPeers (act : Raft → Nat → Option Raft) : Option Raft :=
  (raft.trk.peers.filter (· ≠ config.id)).foldlM act raft

def bcastAppend : Option Raft := raft.visitPeers config fun raft peer => raft.sendAppend config peer

def bcastHeartbeat : Option Raft :=
  raft.visitPeers config fun raft peer => raft.sendHeartbeat config peer

def sendTimeoutNow : Option Raft :=
  raft.send config { type := .timeoutNow, toId := peer }

def appliedTo (raft : Raft) (index size : Nat) : Option Raft := do
  let log ← raft.log.appliedTo (max index raft.log.applied) size
  return { raft with log }

def maybeCommit (raft : Raft) : Option (Raft × Bool) := do
  let (log, advanced) ← raft.log.maybeCommit raft.trk.committed raft.term
  return ({ raft with log }, advanced)

def abortLeaderTransfer : Raft := { raft with leadTransferee := 0 }

def resetRandomizedElectionTimeout : Raft :=
  { raft with
    randomizedElectionTimeout := config.electionTick + config.random raft.draws % config.electionTick
    draws := raft.draws + 1 }

def freshProgress (id : Nat) (isLearner : Bool) : Progress where
  matched := if id = config.id then raft.log.lastIndex else 0
  next := raft.log.lastIndex + 1
  state := .probe
  pendingSnapshot := 0
  recentActive := false
  msgAppFlowPaused := false
  inflights := .new raft.trk.maxInflight raft.trk.maxInflightBytes
  isLearner := isLearner

def resetProgress : Tracker :=
  raft.trk.peers.foldl (fun trk id =>
    match trk.progress.get id with
    | some progress => trk.setProgress id (raft.freshProgress config id progress.isLearner)
    | none => trk) raft.trk.resetVotes

def reset (term : Nat) : Raft :=
  let raft := if raft.term ≠ term then { raft with term, vote := 0 } else raft
  let raft := { raft with lead := 0, electionElapsed := 0, heartbeatElapsed := 0 }
  let raft := (raft.resetRandomizedElectionTimeout config).abortLeaderTransfer
  { raft with trk := raft.resetProgress config, pendingConfIndex := 0, uncommittedSize := 0 }

def increaseUncommittedSize (entries : List Entry) : Option Raft :=
  let size := payloadsSize config.sizes entries
  if raft.uncommittedSize > 0 ∧ size > 0 ∧
      raft.uncommittedSize + size > config.maxUncommittedEntriesSize then none
  else some { raft with uncommittedSize := raft.uncommittedSize + size }

def reduceUncommittedSize (size : Nat) : Raft :=
  { raft with uncommittedSize := raft.uncommittedSize - size }

def numberEntries (term : Nat) : Nat → List Payload → List Entry
  | _, [] => []
  | index, payload :: rest => ⟨term, index, payload⟩ :: numberEntries term (index + 1) rest

def appendEntry (payloads : List Payload) : Option (Raft × Bool) :=
  let entries := numberEntries raft.term (raft.log.lastIndex + 1) payloads
  match raft.increaseUncommittedSize config entries with
  | none => some (raft, false)
  | some raft => do
    let log ← raft.log.append entries
    let raft := { raft with log }
    let raft ← raft.send config { type := .appResp, toId := config.id, index := raft.log.lastIndex }
    return (raft, true)

def becomeFollower (term lead : Nat) : Raft :=
  { raft.reset config term with lead, state := .follower }

def becomeCandidate : Option Raft :=
  if raft.state = .leader then none
  else some { raft.reset config (raft.term + 1) with vote := config.id, state := .candidate }

def becomePreCandidate : Option Raft :=
  if raft.state = .leader then none
  else some { raft with trk := raft.trk.resetVotes, lead := 0, state := .preCandidate }

def becomeLeader : Option Raft :=
  if raft.state = .follower then none
  else do
    let raft := { raft.reset config raft.term with lead := config.id, state := .leader }
    let progress ← raft.trk.progress.get config.id
    let raft := raft.setProgress config.id { progress.becomeReplicate with recentActive := true }
    let raft := { raft with pendingConfIndex := raft.log.lastIndex }
    match ← raft.appendEntry config [.empty] with
    | (_, false) => none
    | (raft, true) => return raft

def promotable : Bool :=
  match raft.trk.progress.get config.id with
  | none => false
  | some progress => !progress.isLearner

def requestVote (campaign : CampaignType) (voteMsg respMsg : MessageType)
    (term peer : Nat) : Option Raft :=
  if peer = config.id then raft.send config { type := respMsg, toId := peer, term }
  else do
    let logTerm ← raft.log.lastTerm
    raft.send config {
      type := voteMsg
      toId := peer
      term
      index := raft.log.lastIndex
      logTerm
      context := if campaign = .transfer then .campaignTransfer else .none }

def campaign (type : CampaignType) : Option Raft := do
  match type with
  | .preElection =>
    let raft ← raft.becomePreCandidate
    raft.trk.config.voters.toList.foldlM
      (fun raft peer => raft.requestVote config type .preVote .preVoteResp (raft.term + 1) peer) raft
  | _ =>
    let raft ← raft.becomeCandidate config
    raft.trk.config.voters.toList.foldlM
      (fun raft peer => raft.requestVote config type .vote .voteResp raft.term peer) raft

def hup (type : CampaignType) : Option Raft :=
  if raft.state = .leader then some raft
  else if !raft.promotable config then some raft
  else do
    if ← raft.log.hasUnappliedConfChanges config.sizes then return raft
    raft.campaign config type

def handleAppendEntries : Option Raft :=
  if message.index < raft.log.committed then
    raft.send config { type := .appResp, toId := message.fromId, index := raft.log.committed }
  else do
    match ← raft.log.maybeAppend message.index message.logTerm message.commit message.entries with
    | (log, some mlastIndex) =>
      let raft := { raft with log }
      raft.send config { type := .appResp, toId := message.fromId, index := mlastIndex }
    | (_, none) =>
      let (hintIndex, hintTerm) :=
        raft.log.findConflictByTerm (min message.index raft.log.lastIndex) message.logTerm
      raft.send config {
        type := .appResp
        toId := message.fromId
        index := message.index
        reject := true
        rejectHint := hintIndex
        logTerm := hintTerm }

def handleHeartbeat : Option Raft := do
  let log ← raft.log.commitTo message.commit
  let raft := { raft with log }
  raft.send config {
    type := .heartbeatResp
    toId := message.fromId
    context := message.context }

/-- What a leader makes of the payloads of a proposal: a configuration change
becomes an empty entry while another may be pending. -/
def admitPayloads (raft : Raft) : Nat → List Payload → Raft × List Payload
  | _, [] => (raft, [])
  | offset, payload :: rest =>
    let refused := payload.isConfChange && raft.pendingConfIndex > raft.log.applied &&
      !config.disableConfChangeValidation
    let admitted := if refused then .empty else payload
    let raft :=
      if payload.isConfChange && !refused then
        { raft with pendingConfIndex := raft.log.lastIndex + offset + 1 }
      else raft
    let (raft, others) := raft.admitPayloads (offset + 1) rest
    (raft, admitted :: others)

abbrev StepResult := Raft × Bool

def stepProp : Option StepResult :=
  if message.entries.isEmpty then none
  else if !raft.trk.progress.contains config.id then some (raft, false)
  else if raft.leadTransferee ≠ 0 then some (raft, false)
  else do
    let (raft, payloads) := raft.admitPayloads config 0 (message.entries.map Entry.payload)
    match ← raft.appendEntry config payloads with
    | (raft, false) => return (raft, false)
    | (raft, true) =>
      let raft ← raft.bcastAppend config
      return (raft, true)

def stepCheckQuorum : Raft :=
  let raft := if raft.trk.quorumActive then raft else raft.becomeFollower config raft.term 0
  { raft with trk := raft.trk.peers.foldl (fun trk id =>
      match trk.progress.get id with
      | some progress => trk.setProgress id
          (if id = config.id then progress else { progress with recentActive := false })
      | none => trk) raft.trk }

def stepAppReject : Option Raft :=
  let nextProbeIdx :=
    if message.logTerm > 0 then (raft.log.findConflictByTerm message.rejectHint message.logTerm).1
    else message.rejectHint
  match progress.maybeDecrTo message.index nextProbeIdx with
  | none => some raft
  | some progress =>
    let progress := if progress.state = .replicate then progress.becomeProbe else progress
    (raft.setProgress message.fromId progress).sendAppend config message.fromId

def acknowledged (index : Nat) (progress : Progress) : Progress :=
  match progress.state with
  | .probe => progress.becomeReplicate
  | .snapshot =>
    if progress.matched + 1 ≥ raft.log.firstIndex then progress.becomeProbe.becomeReplicate
    else progress
  | .replicate => { progress with inflights := progress.inflights.freeLE index }

def sendAfterAck (advanced oldPaused : Bool) (peer : Nat) : Option Raft :=
  if advanced then raft.bcastAppend config
  else if oldPaused then raft.sendAppend config peer
  else some raft

def catchUp : Option Raft :=
  if config.id ≠ peer then sendAppends config peer (raft.log.lastIndex + 2) raft else some raft

def stepAppAccept : Option Raft := do
  let oldPaused := progress.isPaused
  let (progress, updated) := progress.maybeUpdate message.index
  if updated || (progress.matched = message.index && progress.state = .probe) then
    let raft := raft.setProgress message.fromId (raft.acknowledged message.index progress)
    let (raft, advanced) ← raft.maybeCommit
    let raft ← raft.sendAfterAck config advanced oldPaused message.fromId
    let raft ← raft.catchUp config message.fromId
    if message.fromId = raft.leadTransferee ∧ progress.matched = raft.log.lastIndex then
      raft.sendTimeoutNow config message.fromId
    else return raft
  else return raft.setProgress message.fromId progress

def stepAppResp : Option Raft :=
  let progress := { progress with recentActive := true }
  let raft := raft.setProgress message.fromId progress
  if message.reject then raft.stepAppReject config message progress
  else raft.stepAppAccept config message progress

def stepHeartbeatResp : Option Raft :=
  let progress := { progress with recentActive := true, msgAppFlowPaused := false }
  let raft := raft.setProgress message.fromId progress
  if progress.matched < raft.log.lastIndex ∨ progress.state = .probe then
    raft.sendAppend config message.fromId
  else some raft

def stepSnapStatus : Raft :=
  if progress.state ≠ .snapshot then raft
  else
    let progress := if message.reject then { progress with pendingSnapshot := 0 } else progress
    raft.setProgress message.fromId { progress.becomeProbe with msgAppFlowPaused := true }

def stepUnreachable : Raft :=
  if progress.state = .replicate then raft.setProgress message.fromId progress.becomeProbe else raft

def stepTransferLeader : Option Raft :=
  if progress.isLearner then some raft
  else if raft.leadTransferee = message.fromId then some raft
  else
    let raft := raft.abortLeaderTransfer
    if message.fromId = config.id then some raft
    else
      let raft := { raft with electionElapsed := 0, leadTransferee := message.fromId }
      if progress.matched = raft.log.lastIndex then raft.sendTimeoutNow config message.fromId
      else raft.sendAppend config message.fromId

def stepFromPeer : Option Raft :=
  match raft.trk.progress.get message.fromId with
  | none => some raft
  | some progress =>
    match message.type with
    | .appResp => raft.stepAppResp config message progress
    | .heartbeatResp => raft.stepHeartbeatResp config message progress
    | .snapStatus => some (raft.stepSnapStatus message progress)
    | .unreachable => some (raft.stepUnreachable message progress)
    | .transferLeader => raft.stepTransferLeader config message progress
    | _ => some raft

def stepLeader : Option StepResult :=
  match message.type with
  | .beat => (raft.bcastHeartbeat config).map (·, true)
  | .checkQuorum => some (raft.stepCheckQuorum config, true)
  | .prop => raft.stepProp config message
  | _ => (raft.stepFromPeer config message).map (·, true)

/-! ## Candidate and follower -/

def stepVoteResp : Option Raft :=
  let raft := { raft with trk := raft.trk.recordVote message.fromId (!message.reject) }
  match raft.trk.tallyVotes with
  | .won =>
    if raft.state = .preCandidate then raft.campaign config .election
    else do
      let raft ← raft.becomeLeader config
      raft.bcastAppend config
  | .lost => some (raft.becomeFollower config raft.term 0)
  | .pending => some raft

def stepCandidate : Option StepResult :=
  match message.type with
  | .prop => some (raft, false)
  | .app =>
    ((raft.becomeFollower config message.term message.fromId).handleAppendEntries config message).map
      (·, true)
  | .heartbeat =>
    ((raft.becomeFollower config message.term message.fromId).handleHeartbeat config message).map
      (·, true)
  | .preVoteResp =>
    if raft.state = .preCandidate then (raft.stepVoteResp config message).map (·, true)
    else some (raft, true)
  | .voteResp =>
    if raft.state ≠ .preCandidate then (raft.stepVoteResp config message).map (·, true)
    else some (raft, true)
  | _ => some (raft, true)

def stepFollower : Option StepResult :=
  match message.type with
  | .prop =>
    if raft.lead = 0 then some (raft, false)
    else if config.disableProposalForwarding then some (raft, false)
    else (raft.send config { message with toId := raft.lead }).map (·, true)
  | .app =>
    let raft := { raft with electionElapsed := 0, lead := message.fromId }
    (raft.handleAppendEntries config message).map (·, true)
  | .heartbeat =>
    let raft := { raft with electionElapsed := 0, lead := message.fromId }
    (raft.handleHeartbeat config message).map (·, true)
  | .transferLeader =>
    if raft.lead = 0 then some (raft, true)
    else (raft.send config { message with toId := raft.lead }).map (·, true)
  | .timeoutNow => (raft.hup config .transfer).map (·, true)
  | _ => some (raft, true)

def grants : Option Bool :=
  let canVote := raft.vote = message.fromId || (raft.vote = 0 && raft.lead = 0) ||
    (message.type = .preVote && message.term > raft.term)
  if canVote then raft.log.isUpToDate message.index message.logTerm else some false

def stepVote : Option Raft := do
  let respMsg : MessageType := if message.type = .vote then .voteResp else .preVoteResp
  if ← raft.grants message then
    let raft ← raft.send config { type := respMsg, toId := message.fromId, term := message.term }
    if message.type = .vote then return { raft with electionElapsed := 0, vote := message.fromId }
    else return raft
  else
    raft.send config { type := respMsg, toId := message.fromId, term := raft.term, reject := true }

/-- The part of `Step` after the terms are compared. -/
def stepSameTerm : Option StepResult :=
  match message.type with
  | .hup => (raft.hup config (if config.preVote then .preElection else .election)).map (·, true)
  | .storageAppendResp =>
    let raft :=
      if message.index ≠ 0 then { raft with log := raft.log.stableTo message.index message.logTerm }
      else raft
    some (raft, true)
  | .storageApplyResp =>
    match message.entries.getLast? with
    | none => some (raft, true)
    | some last => do
      let raft ← raft.appliedTo last.index (entsSize config.sizes message.entries)
      return (raft.reduceUncommittedSize (payloadsSize config.sizes message.entries), true)
  | .vote | .preVote => (raft.stepVote config message).map (·, true)
  | _ =>
    match raft.state with
    | .leader => raft.stepLeader config message
    | .follower => raft.stepFollower config message
    | .candidate | .preCandidate => raft.stepCandidate config message

/-- A vote request within the lease of the leader is ignored. -/
def ignoredInLease : Bool :=
  (message.type = .vote || message.type = .preVote) && message.context ≠ .campaignTransfer &&
    config.checkQuorum && raft.lead ≠ 0 && raft.electionElapsed < config.electionTick

def stepLowerTerm : Option Raft :=
  if (config.checkQuorum || config.preVote) &&
      (message.type = .heartbeat || message.type = .app) then
    raft.send config { type := .appResp, toId := message.fromId }
  else if message.type = .preVote then
    raft.send config { type := .preVoteResp, toId := message.fromId, term := raft.term, reject := true }
  else some raft

def followTerm : Raft :=
  if message.type = .preVote || (message.type = .preVoteResp && !message.reject) then raft
  else if message.type = .app || message.type = .heartbeat || message.type = .snap then
    raft.becomeFollower config message.term message.fromId
  else raft.becomeFollower config message.term 0

def step : Option StepResult :=
  if message.term = 0 then raft.stepSameTerm config message
  else if message.term > raft.term then
    if raft.ignoredInLease config message then some (raft, true)
    else (raft.followTerm config message).stepSameTerm config message
  else if message.term < raft.term then (raft.stepLowerTerm config message).map (·, true)
  else raft.stepSameTerm config message

def tickElection : Option Raft :=
  let raft := { raft with electionElapsed := raft.electionElapsed + 1 }
  if raft.promotable config ∧ raft.electionElapsed ≥ raft.randomizedElectionTimeout then
    ({ raft with electionElapsed := 0 }.step config { type := .hup, fromId := config.id }).map Prod.fst
  else some raft

def checkLeadership : Option Raft :=
  if raft.electionElapsed ≥ config.electionTick then
    let raft := { raft with electionElapsed := 0 }
    let checked :=
      if config.checkQuorum then
        (raft.step config { type := .checkQuorum, fromId := config.id }).map Prod.fst
      else some raft
    checked.map fun raft =>
      if raft.state = .leader ∧ raft.leadTransferee ≠ 0 then raft.abortLeaderTransfer else raft
  else some raft

def tickHeartbeat : Option Raft := do
  let raft := { raft with
    heartbeatElapsed := raft.heartbeatElapsed + 1
    electionElapsed := raft.electionElapsed + 1 }
  let raft ← raft.checkLeadership config
  if raft.state ≠ .leader then return raft
  if raft.heartbeatElapsed ≥ config.heartbeatTick then
    ({ raft with heartbeatElapsed := 0 }.step config { type := .beat, fromId := config.id }).map Prod.fst
  else return raft

def tick : Option Raft :=
  if raft.state = .leader then raft.tickHeartbeat config else raft.tickElection config

def sendAfterConfig (advanced : Bool) : Option Raft :=
  if advanced then raft.bcastAppend config
  else raft.visitPeers config fun raft peer => (raft.maybeSendAppend config peer false).map Prod.fst

def switchToConfig (trk : Tracker) : Option Raft := do
  let self := trk.progress.get config.id
  let isLearner : Bool := (self.map Progress.isLearner).getD false
  let raft := { raft with trk, isLearner }
  if (self.isNone || isLearner) ∧ raft.state = .leader then
    return if config.stepDownOnRemoval then raft.becomeFollower config raft.term 0 else raft
  if raft.state ≠ .leader ∨ raft.trk.config.voters.size = 0 then return raft
  let (raft, advanced) ← raft.maybeCommit
  let raft ← raft.sendAfterConfig config advanced
  if raft.leadTransferee ≠ 0 ∧ !raft.trk.config.voters.contains raft.leadTransferee then
    return raft.abortLeaderTransfer
  else return raft

def applyConfChange (change : ConfChange) : Option Raft := do
  let trk ← Changer.simple raft.log.lastIndex raft.trk change.type change.nodeId
  raft.switchToConfig config trk

def loadState (hardState : HardState) : Option Raft :=
  if hardState = .empty then some raft
  else if hardState.commit < raft.log.committed ∨ hardState.commit > raft.log.lastIndex then none
  else some { raft with
    log := { raft.log with committed := hardState.commit }
    term := hardState.term
    vote := hardState.vote }

def unloaded (storage : LogStore) (draws : Nat) : Raft where
  term := 0
  vote := 0
  log := .new storage config.maxCommittedSizePerReady
  trk := .new config.maxInflightMsgs config.maxInflightBytes
  state := .follower
  isLearner := false
  msgs := []
  msgsAfterAppend := []
  lead := 0
  leadTransferee := 0
  pendingConfIndex := 0
  uncommittedSize := 0
  electionElapsed := 0
  heartbeatElapsed := 0
  randomizedElectionTimeout := 0
  draws := draws

def startApplied (applied : Nat) : Option Raft :=
  if applied > 0 then (raft.log.appliedTo applied 0).map fun log => { raft with log } else some raft

def new (storage : LogStore) (confState : ConfState) (applied draws : Nat) : Option Raft := do
  let raft := unloaded config storage draws
  let trk ← Changer.restore raft.log.lastIndex raft.trk confState
  let raft ← raft.switchToConfig config trk
  if raft.trk.confState ≠ confState then none
  else do
    let raft ← raft.loadState storage.hardState
    let raft ← raft.startApplied applied
    return raft.becomeFollower config raft.term 0

end Raft

end RocksGraph.Eraft
