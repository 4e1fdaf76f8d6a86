import Mathlib.Algebra.GroupWithZero.Nat

/-! The protocol data of the raft library: entries, messages and hard states.

Ids, terms and indexes are numbers; id 0 is no node (`None`). A configuration
change entry carries its parsed change instead of the serialized text. -/

set_option autoImplicit false

namespace RocksGraph.Eraft

abbrev Bytes := List (Fin 256)

inductive ConfChangeType where
  | addNode
  | removeNode
  | updateNode
  | addLearnerNode
  deriving DecidableEq, Repr

/-- `raftpb::ConfChange`; `context` is the serialized node info. -/
structure ConfChange where
  id : Nat
  type : ConfChangeType
  nodeId : Nat
  context : Bytes
  deriving DecidableEq, Repr

inductive Payload where
  | normal (data : Bytes)
  | confChange (change : ConfChange)
  deriving DecidableEq, Repr

def Payload.isConfChange : Payload → Bool
  | .normal _ => false
  | .confChange _ => true

structure Entry where
  term : Nat
  index : Nat
  payload : Payload
  deriving DecidableEq, Repr

def Payload.empty : Payload := .normal []

inductive MessageType where
  | hup
  | beat
  | prop
  | app
  | appResp
  | vote
  | voteResp
  | snap
  | heartbeat
  | heartbeatResp
  | unreachable
  | snapStatus
  | checkQuorum
  | transferLeader
  | timeoutNow
  | preVote
  | preVoteResp
  | storageAppendResp
  | storageApplyResp
  deriving DecidableEq, Repr

/-- The contexts that the library compares: none, and that of a leader transfer. -/
inductive Context where
  | none
  | campaignTransfer
  deriving DecidableEq, Repr

structure SnapshotMeta where
  index : Nat
  term : Nat
  deriving DecidableEq, Repr

/-- `raftpb::Message`; fields that a type does not use stay at their defaults. -/
structure Message where
  type : MessageType
  toId : Nat := 0
  fromId : Nat := 0
  term : Nat := 0
  logTerm : Nat := 0
  index : Nat := 0
  entries : List Entry := []
  commit : Nat := 0
  reject : Bool := false
  rejectHint : Nat := 0
  context : Context := .none
  snapshot : SnapshotMeta := ⟨0, 0⟩
  deriving DecidableEq, Repr

def localAppendThread : Nat := 2 ^ 64 - 1

def localApplyThread : Nat := 2 ^ 64 - 2

structure HardState where
  term : Nat
  vote : Nat
  commit : Nat
  deriving DecidableEq, Repr

def HardState.empty : HardState := ⟨0, 0, 0⟩

/-- Voters and learners; the driver never proposes a joint change. -/
structure ConfState where
  voters : List Nat
  learners : List Nat
  deriving DecidableEq, Repr

def ConfState.empty : ConfState := ⟨[], []⟩

end RocksGraph.Eraft
