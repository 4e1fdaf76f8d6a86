import RocksGraph.Foundation.Table
import RocksGraph.Raft.Message

/-! Quorums, the progress of the peers as a leader sees it, and configuration
changes (`quorum/majority.h`, `tracker/*.h`, `confchange/*.h`).

The driver proposes single changes only, so a configuration has one set of
voters and never a joint one. -/

set_option autoImplicit false

namespace RocksGraph.Eraft

open Foundation

abbrev IdSet := Table Nat Unit

def IdSet.toList (ids : IdSet) : List Nat := ids.entries.map Prod.fst

def IdSet.size (ids : IdSet) : Nat := ids.entries.length

inductive VoteResult where
  | pending
  | lost
  | won
  deriving DecidableEq, Repr

namespace Majority

def quorum (voters : IdSet) : Nat := voters.size / 2 + 1

/-- The largest index that a quorum has acknowledged. The index is without
bound when there are no voters. -/
def committedIndex (voters : IdSet) (ackedIndex : Nat → Option Nat) : Nat :=
  if voters.size = 0 then 2 ^ 64 - 1
  else
    let acked := (voters.toList.filterMap ackedIndex).insertionSort (· ≤ ·)
    let padded := List.replicate (voters.size - acked.length) 0 ++ acked
    padded.getD (voters.size - quorum voters) 0

def voteResult (voters : IdSet) (votes : Nat → Option Bool) : VoteResult :=
  if voters.size = 0 then .won
  else
    let votedCnt := voters.toList.countP fun id => votes id = some true
    let missing := voters.toList.countP fun id => votes id = none
    if votedCnt ≥ quorum voters then .won
    else if votedCnt + missing ≥ quorum voters then .pending
    else .lost

end Majority

structure Inflights where
  buffer : List (Nat × Nat)
  size : Nat
  maxBytes : Nat
  deriving DecidableEq, Repr

namespace Inflights

def new (size maxBytes : Nat) : Inflights := ⟨[], size, maxBytes⟩

variable (inflights : Inflights)

def reset : Inflights := { inflights with buffer := [] }

def bytes : Nat := (inflights.buffer.map Prod.snd).sum

def full : Bool :=
  inflights.buffer.length = inflights.size ||
    (inflights.maxBytes ≠ 0 && inflights.bytes ≥ inflights.maxBytes)

def add (index bytes : Nat) : Option Inflights :=
  if inflights.full then none
  else some { inflights with buffer := inflights.buffer ++ [(index, bytes)] }

def freeLE (upto : Nat) : Inflights :=
  { inflights with buffer := inflights.buffer.dropWhile fun sent => sent.1 ≤ upto }

end Inflights

inductive ProgressState where
  | probe
  | replicate
  | snapshot
  deriving DecidableEq, Repr

structure Progress where
  matched : Nat
  next : Nat
  state : ProgressState
  pendingSnapshot : Nat
  recentActive : Bool
  msgAppFlowPaused : Bool
  inflights : Inflights
  isLearner : Bool
  deriving DecidableEq, Repr

namespace Progress

variable (progress : Progress)

def resetState (state : ProgressState) : Progress :=
  { progress with
    msgAppFlowPaused := false
    pendingSnapshot := 0
    state
    inflights := progress.inflights.reset }

def becomeProbe : Progress :=
  match progress.state with
  | .snapshot =>
    { progress.resetState .probe with next := max (progress.matched + 1) (progress.pendingSnapshot + 1) }
  | _ => { progress.resetState .probe with next := progress.matched + 1 }

def becomeReplicate : Progress :=
  { progress.resetState .replicate with next := progress.matched + 1 }

def becomeSnapshot (index : Nat) : Progress :=
  { progress.resetState .snapshot with pendingSnapshot := index }

def updateOnEntriesSend (entries bytes nextIndex : Nat) : Option Progress :=
  match progress.state with
  | .replicate => do
    let progress ←
      if entries > 0 then do
        let last := nextIndex + entries - 1
        let inflights ← progress.inflights.add last bytes
        pure { progress with next := last + 1, inflights }
      else pure progress
    return { progress with msgAppFlowPaused := progress.inflights.full }
  | .probe => some (if entries > 0 then { progress with msgAppFlowPaused := true } else progress)
  | .snapshot => none

def maybeUpdate (index : Nat) : Progress × Bool :=
  let updated := progress.matched < index
  let progress := if updated then { progress with matched := index, msgAppFlowPaused := false }
    else progress
  ({ progress with next := max progress.next (index + 1) }, updated)

def maybeDecrTo (rejected matchHint : Nat) : Option Progress :=
  match progress.state with
  | .replicate =>
    if rejected ≤ progress.matched then none else some { progress with next := progress.matched + 1 }
  | _ =>
    if progress.next - 1 ≠ rejected then none
    else some { progress with
      next := max (min rejected (matchHint + 1)) 1
      msgAppFlowPaused := false }

def isPaused : Bool :=
  match progress.state with
  | .snapshot => true
  | _ => progress.msgAppFlowPaused

end Progress

structure TrackerConfig where
  voters : IdSet
  learners : IdSet

structure Tracker where
  config : TrackerConfig
  progress : Table Nat Progress
  votes : Table Nat Bool
  maxInflight : Nat
  maxInflightBytes : Nat

namespace Tracker

def new (maxInflight maxInflightBytes : Nat) : Tracker where
  config := ⟨.empty, .empty⟩
  progress := .empty
  votes := .empty
  maxInflight := maxInflight
  maxInflightBytes := maxInflightBytes

variable (tracker : Tracker)

def confState : ConfState :=
  ⟨tracker.config.voters.toList, tracker.config.learners.toList⟩

def committed : Nat :=
  Majority.committedIndex tracker.config.voters fun id =>
    (tracker.progress.get id).map Progress.matched

/-- The ids of all peers, in the order `Visit` takes them. -/
def peers : List Nat := tracker.progress.entries.map Prod.fst

def quorumActive : Bool :=
  Majority.voteResult tracker.config.voters (fun id =>
    (tracker.progress.get id).bind fun progress =>
      if progress.isLearner then none else some progress.recentActive) = .won

def resetVotes : Tracker := { tracker with votes := .empty }

def recordVote (id : Nat) (granted : Bool) : Tracker :=
  if tracker.votes.contains id then tracker
  else { tracker with votes := tracker.votes.put id granted }

def tallyVotes : VoteResult :=
  Majority.voteResult tracker.config.voters tracker.votes.get

def setProgress (id : Nat) (progress : Progress) : Tracker :=
  { tracker with progress := tracker.progress.put id progress }

end Tracker

namespace Changer

variable (lastIndex : Nat) (tracker : Tracker)

def initProgress (id : Nat) (isLearner : Bool) : Tracker :=
  { tracker with
    config :=
      if isLearner then { tracker.config with learners := tracker.config.learners.put id () }
      else { tracker.config with voters := tracker.config.voters.put id () }
    progress := tracker.progress.put id {
      matched := 0
      next := lastIndex
      state := .probe
      pendingSnapshot := 0
      recentActive := true
      msgAppFlowPaused := false
      inflights := .new tracker.maxInflight tracker.maxInflightBytes
      isLearner } }

def makeVoter (id : Nat) : Tracker :=
  match tracker.progress.get id with
  | none => initProgress lastIndex tracker id false
  | some progress =>
    { tracker with
      config := ⟨tracker.config.voters.put id (), tracker.config.learners.erase id⟩
      progress := tracker.progress.put id { progress with isLearner := false } }

def remove (id : Nat) : Tracker :=
  match tracker.progress.get id with
  | none => tracker
  | some _ =>
    { tracker with
      config := ⟨tracker.config.voters.erase id, tracker.config.learners.erase id⟩
      progress := tracker.progress.erase id }

def makeLearner (id : Nat) : Tracker :=
  match tracker.progress.get id with
  | none => initProgress lastIndex tracker id true
  | some progress =>
    if progress.isLearner then tracker
    else
      let removed := remove tracker id
      { removed with
        config := { removed.config with learners := removed.config.learners.put id () }
        progress := removed.progress.put id { progress with isLearner := true } }

/-- One change; the change of node 0 is none. -/
def apply (type : ConfChangeType) (nodeId : Nat) : Tracker :=
  if nodeId = 0 then tracker
  else match type with
    | .addNode => makeVoter lastIndex tracker nodeId
    | .addLearnerNode => makeLearner lastIndex tracker nodeId
    | .removeNode => remove tracker nodeId
    | .updateNode => tracker

/-- `checkInvariants` of a configuration that is not joint. -/
def checkInvariants : Bool :=
  tracker.config.voters.toList.all (fun id => tracker.progress.contains id) &&
  tracker.config.learners.toList.all fun id =>
    match tracker.progress.get id with
    | none => false
    | some progress => !tracker.config.voters.contains id && progress.isLearner

def symdiff (left right : IdSet) : Nat :=
  left.toList.countP (fun id => !right.contains id) +
    right.toList.countP fun id => !left.contains id

/-- `Simple` with one change. An error ends the process at every caller. -/
def simple (type : ConfChangeType) (nodeId : Nat) : Option Tracker :=
  let changed := apply lastIndex tracker type nodeId
  if !checkInvariants tracker then none
  else if changed.config.voters.size = 0 then none
  else if symdiff tracker.config.voters changed.config.voters > 1 then none
  else if !checkInvariants changed then none
  else some changed

/-- `Restore`: add the voters and then the learners of a stored configuration. -/
def restore (confState : ConfState) : Option Tracker := do
  let tracker ← confState.voters.foldlM (fun tracker id => simple lastIndex tracker .addNode id) tracker
  confState.learners.foldlM (fun tracker id => simple lastIndex tracker .addLearnerNode id) tracker

end Changer

end RocksGraph.Eraft
