import RocksGraph.Foundation.Check
import RocksGraph.Raft.Tracker

/-! Joint configurations (`quorum/joint.h`, `tracker/tracker.h`, `confchange/*.h`).

A configuration has an incoming and an outgoing half of voters; the outgoing one
is empty unless the configuration is joint. `Tracker` is what the driver of this
server reaches, which proposes single changes only; the library has all of it. -/

set_option autoImplicit false

namespace RocksGraph.Eraft

open Foundation

structure JointVoters where
  incoming : IdSet
  outgoing : IdSet

namespace JointVoters

def committedIndex (voters : JointVoters) (ackedIndex : Nat → Option Nat) : Nat :=
  let first := Majority.committedIndex voters.incoming ackedIndex
  let second := Majority.committedIndex voters.outgoing ackedIndex
  if first < second then first else second

def voteResult (voters : JointVoters) (votes : Nat → Option Bool) : VoteResult :=
  let first := Majority.voteResult voters.incoming votes
  let second := Majority.voteResult voters.outgoing votes
  if first = second then first
  else if first = .lost ∨ second = .lost then .lost
  else .pending

end JointVoters

structure JointConfig where
  voters : JointVoters
  autoLeave : Bool
  learners : IdSet
  learnersNext : IdSet

def JointConfig.joint (config : JointConfig) : Bool := config.voters.outgoing.size ≠ 0

/-- The configuration of a `ProgressTracker` and the progress of its nodes. -/
structure JointTracker where
  config : JointConfig
  progress : Table Nat Progress

/-- `raftpb::ConfState` with all its fields. -/
structure JointConfState where
  voters : List Nat
  votersOutgoing : List Nat
  learners : List Nat
  learnersNext : List Nat
  autoLeave : Bool
  deriving DecidableEq, Repr

namespace JointTracker

def empty : JointTracker := ⟨⟨⟨.empty, .empty⟩, false, .empty, .empty⟩, .empty⟩

def confState (tracker : JointTracker) : JointConfState where
  voters := tracker.config.voters.incoming.toList
  votersOutgoing := tracker.config.voters.outgoing.toList
  learners := tracker.config.learners.toList
  learnersNext := tracker.config.learnersNext.toList
  autoLeave := tracker.config.autoLeave

def isLearner (tracker : JointTracker) (id : Nat) : Bool := (tracker.progress.get id).any Progress.isLearner

end JointTracker

inductive ConfChangeError where
  /-- "no progress for %d" -/
  | noProgress (id : Nat)
  /-- "%d is in LearnersNext, but not Voters[1]" -/
  | nextNotOutgoing (id : Nat)
  /-- "%d is in LearnersNext, but is already marked as learner" -/
  | nextIsLearner (id : Nat)
  /-- "%d is in Learners and Voters[1]" -/
  | learnerOutgoing (id : Nat)
  /-- "%d is in Learners and Voters[0]" -/
  | learnerIncoming (id : Nat)
  /-- "%d is in Learners, but is not marked as learner" -/
  | learnerNotMarked (id : Nat)
  /-- "cfg.LearnersNext must be nil when not joint" -/
  | nextNotJoint
  /-- "AutoLeave must be false when not joint" -/
  | autoLeaveNotJoint
  /-- "removed all voters" -/
  | removedAllVoters
  /-- "config is already joint" -/
  | alreadyJoint
  /-- "can't make a zero-voter config joint" -/
  | zeroVoterJoint
  /-- "can't leave a non-joint config" -/
  | leaveNotJoint
  /-- "can't apply simple config change in joint config" -/
  | simpleInJoint
  /-- "more than one voter changed without entering joint config" -/
  | moreThanOneVoter
  deriving DecidableEq, Repr

structure ConfChangeSingle where
  type : ConfChangeType
  nodeId : Nat
  deriving DecidableEq, Repr

inductive ConfChangeOperation where
  | simple (changes : List ConfChangeSingle)
  | enterJoint (autoLeave : Bool) (changes : List ConfChangeSingle)
  | leaveJoint
  deriving DecidableEq, Repr

/-- What a `Changer` has beside the tracker it changes. -/
structure JointChanger where
  lastIndex : Nat
  maxInflight : Nat
  maxInflightBytes : Nat

namespace JointChanger

variable (changer : JointChanger)

def checkInvariants (tracker : JointTracker) : Except ConfChangeError Unit := do
  let ⟨⟨incoming, outgoing⟩, autoLeave, learners, learnersNext⟩ := tracker.config
  forM (incoming.toList ++ outgoing.toList ++ learners.toList ++ learnersNext.toList) fun id =>
    check (tracker.progress.contains id) (.noProgress id)
  forM learnersNext.toList fun id => do
    check (outgoing.contains id) (.nextNotOutgoing id)
    check (¬ tracker.isLearner id) (.nextIsLearner id)
  forM learners.toList fun id => do
    check (¬ outgoing.contains id) (.learnerOutgoing id)
    check (¬ incoming.contains id) (.learnerIncoming id)
    check (tracker.isLearner id) (.learnerNotMarked id)
  check (tracker.config.joint ∨ learnersNext.size = 0) .nextNotJoint
  check (tracker.config.joint ∨ ¬ autoLeave) .autoLeaveNotJoint

def checkAndReturn (tracker : JointTracker) : Except ConfChangeError JointTracker := do
  checkInvariants tracker
  return tracker

def initProgress (tracker : JointTracker) (id : Nat) (isLearner : Bool) : JointTracker where
  config :=
    if isLearner then { tracker.config with learners := tracker.config.learners.put id () }
    else { tracker.config with voters := { tracker.config.voters with
      incoming := tracker.config.voters.incoming.put id () } }
  progress := tracker.progress.put id {
    matched := 0
    next := changer.lastIndex
    state := .probe
    pendingSnapshot := 0
    recentActive := true
    msgAppFlowPaused := false
    inflights := .new changer.maxInflight changer.maxInflightBytes
    isLearner }

def makeVoter (tracker : JointTracker) (id : Nat) : JointTracker :=
  match tracker.progress.get id with
  | none => changer.initProgress tracker id false
  | some progress =>
    { config := { tracker.config with
        voters := { tracker.config.voters with incoming := tracker.config.voters.incoming.put id () }
        learners := tracker.config.learners.erase id
        learnersNext := tracker.config.learnersNext.erase id }
      progress := tracker.progress.put id { progress with isLearner := false } }

/-- The progress of a voter of the outgoing half is kept. -/
def remove (tracker : JointTracker) (id : Nat) : JointTracker :=
  match tracker.progress.get id with
  | none => tracker
  | some _ =>
    { config := { tracker.config with
        voters := { tracker.config.voters with incoming := tracker.config.voters.incoming.erase id }
        learners := tracker.config.learners.erase id
        learnersNext := tracker.config.learnersNext.erase id }
      progress :=
        if tracker.config.voters.outgoing.contains id then tracker.progress else tracker.progress.erase id }

/-- A voter of the outgoing half becomes a learner only when the joint configuration is left. -/
def makeLearner (tracker : JointTracker) (id : Nat) : JointTracker :=
  match tracker.progress.get id with
  | none => changer.initProgress tracker id true
  | some progress =>
    if progress.isLearner then tracker
    else
      let removed := remove tracker id
      if removed.config.voters.outgoing.contains id then
        { config := { removed.config with learnersNext := removed.config.learnersNext.put id () }
          progress := removed.progress.put id progress }
      else
        { config := { removed.config with learners := removed.config.learners.put id () }
          progress := removed.progress.put id { progress with isLearner := true } }

/-- One change of `apply`; the change of node 0 is none. -/
def applyOne (tracker : JointTracker) (change : ConfChangeSingle) : JointTracker :=
  if change.nodeId = 0 then tracker
  else match change.type with
    | .addNode => changer.makeVoter tracker change.nodeId
    | .addLearnerNode => changer.makeLearner tracker change.nodeId
    | .removeNode => remove tracker change.nodeId
    | .updateNode => tracker

def apply (tracker : JointTracker) (changes : List ConfChangeSingle) : Except ConfChangeError JointTracker := do
  let changed := changes.foldl changer.applyOne tracker
  check (changed.config.voters.incoming.size ≠ 0) .removedAllVoters
  return changed

def enterJoint (tracker : JointTracker) (autoLeave : Bool) (changes : List ConfChangeSingle) :
    Except ConfChangeError JointTracker := do
  checkInvariants tracker
  check (¬ tracker.config.joint) .alreadyJoint
  check (tracker.config.voters.incoming.size ≠ 0) .zeroVoterJoint
  let voters := tracker.config.voters.incoming
  let changed ← changer.apply { tracker with config := { tracker.config with voters := ⟨voters, voters⟩ } } changes
  checkAndReturn { changed with config := { changed.config with autoLeave } }

/-- `isLearner_ = true` at the progress of a staged learner. -/
def markLearner (progress : Table Nat Progress) (id : Nat) : Table Nat Progress :=
  match progress.get id with
  | some found => progress.put id { found with isLearner := true }
  | none => progress

/-- The members after `LeaveJoint`: staged learners become learners, and the progress of the others that were voters of
the outgoing half only is dropped. -/
def left (tracker : JointTracker) : JointTracker :=
  let staged := tracker.config.learnersNext
  let learners := staged.toList.foldl (fun learners id => learners.put id ()) tracker.config.learners
  { config := ⟨⟨tracker.config.voters.incoming, .empty⟩, false, learners, .empty⟩
    progress :=
      let marked := staged.toList.foldl markLearner tracker.progress
      tracker.config.voters.outgoing.toList.foldl (fun progress id =>
        if tracker.config.voters.incoming.contains id ∨ learners.contains id then progress else progress.erase id)
        marked }

def leaveJoint (tracker : JointTracker) : Except ConfChangeError JointTracker := do
  checkInvariants tracker
  check tracker.config.joint .leaveNotJoint
  checkAndReturn (left tracker)

def simple (tracker : JointTracker) (changes : List ConfChangeSingle) : Except ConfChangeError JointTracker := do
  checkInvariants tracker
  check (¬ tracker.config.joint) .simpleInJoint
  let changed ← changer.apply tracker changes
  check (Changer.symdiff tracker.config.voters.incoming changed.config.voters.incoming ≤ 1) .moreThanOneVoter
  checkAndReturn changed

def operate (tracker : JointTracker) : ConfChangeOperation → Except ConfChangeError JointTracker
  | .simple changes => changer.simple tracker changes
  | .enterJoint autoLeave changes => changer.enterJoint tracker autoLeave changes
  | .leaveJoint => leaveJoint tracker

/-- `toConfChangeSingle`: the changes that add the outgoing voters, and those that lead from there to the state. -/
def toConfChangeSingle (state : JointConfState) : List ConfChangeSingle × List ConfChangeSingle :=
  (state.votersOutgoing.map fun id => ⟨.addNode, id⟩,
    (state.votersOutgoing.map fun id => ⟨.removeNode, id⟩) ++ (state.voters.map fun id => ⟨.addNode, id⟩) ++
      (state.learners.map fun id => ⟨.addLearnerNode, id⟩) ++ state.learnersNext.map fun id => ⟨.addLearnerNode, id⟩)

def restore (tracker : JointTracker) (state : JointConfState) : Except ConfChangeError JointTracker :=
  let (outgoing, incoming) := toConfChangeSingle state
  if outgoing.isEmpty then incoming.foldlM (fun tracker change => changer.simple tracker [change]) tracker
  else do
    let tracker ← outgoing.foldlM (fun tracker change => changer.simple tracker [change]) tracker
    changer.enterJoint tracker state.autoLeave incoming

variable {changer : JointChanger} {tracker changed : JointTracker} {changes : List ConfChangeSingle}

theorem checkAndReturn_eq_ok :
    checkAndReturn tracker = .ok changed ↔ checkInvariants tracker = .ok () ∧ changed = tracker := by
  rw [checkAndReturn, check_bind_eq_ok, pure_eq_ok]

theorem apply_eq_ok : changer.apply tracker changes = .ok changed ↔
    (changes.foldl changer.applyOne tracker).config.voters.incoming.size ≠ 0 ∧
      changed = changes.foldl changer.applyOne tracker := by
  rw [apply, check_bind_eq_ok, check_eq_ok, pure_eq_ok]

theorem simple_eq_ok : changer.simple tracker changes = .ok changed ↔
    checkInvariants tracker = .ok () ∧ ¬ tracker.config.joint ∧ changed.config.voters.incoming.size ≠ 0 ∧
      Changer.symdiff tracker.config.voters.incoming changed.config.voters.incoming ≤ 1 ∧
      checkInvariants changed = .ok () ∧ changed = changes.foldl changer.applyOne tracker := by
  rw [simple, check_bind_eq_ok, check_bind_eq_ok, bind_eq_ok]
  simp only [check_bind_eq_ok, check_eq_ok, apply_eq_ok, checkAndReturn_eq_ok]
  constructor
  · rintro ⟨sound, plain, _, ⟨voters, rfl⟩, close, still, rfl⟩
    exact ⟨sound, plain, voters, close, still, rfl⟩
  · rintro ⟨sound, plain, voters, close, still, rfl⟩
    exact ⟨sound, plain, _, ⟨voters, rfl⟩, close, still, rfl⟩

/-- The configuration that `EnterJoint` applies its changes to. -/
def doubled (tracker : JointTracker) : JointTracker :=
  { tracker with config := { tracker.config with
      voters := ⟨tracker.config.voters.incoming, tracker.config.voters.incoming⟩ } }

def withAutoLeave (tracker : JointTracker) (autoLeave : Bool) : JointTracker :=
  { tracker with config := { tracker.config with autoLeave } }

theorem enterJoint_eq_ok {autoLeave : Bool} : changer.enterJoint tracker autoLeave changes = .ok changed ↔
    checkInvariants tracker = .ok () ∧ ¬ tracker.config.joint ∧ tracker.config.voters.incoming.size ≠ 0 ∧
      changed.config.voters.incoming.size ≠ 0 ∧ checkInvariants changed = .ok () ∧
      changed = withAutoLeave (changes.foldl changer.applyOne (doubled tracker)) autoLeave := by
  rw [enterJoint, check_bind_eq_ok, check_bind_eq_ok, check_bind_eq_ok, bind_eq_ok]
  simp only [check_eq_ok, apply_eq_ok, checkAndReturn_eq_ok]
  constructor
  · rintro ⟨sound, plain, voters, _, ⟨remaining, rfl⟩, still, rfl⟩
    exact ⟨sound, plain, voters, remaining, still, rfl⟩
  · rintro ⟨sound, plain, voters, remaining, still, rfl⟩
    exact ⟨sound, plain, voters, _, ⟨remaining, rfl⟩, still, rfl⟩

theorem leaveJoint_eq_ok : leaveJoint tracker = .ok changed ↔
    checkInvariants tracker = .ok () ∧ tracker.config.joint ∧ checkInvariants changed = .ok () ∧ changed = left tracker := by
  simp only [leaveJoint, check_bind_eq_ok, check_eq_ok, checkAndReturn_eq_ok]
  constructor
  · rintro ⟨sound, joint, still, rfl⟩
    exact ⟨sound, joint, still, rfl⟩
  · rintro ⟨sound, joint, still, rfl⟩
    exact ⟨sound, joint, still, rfl⟩

structure KeepsOutgoing (before after : JointTracker) : Prop where
  outgoing : after.config.voters.outgoing = before.config.voters.outgoing
  autoLeave : after.config.autoLeave = before.config.autoLeave

theorem keepsOutgoing_remove (tracker : JointTracker) (id : Nat) : KeepsOutgoing tracker (remove tracker id) := by
  unfold remove
  split <;> exact ⟨rfl, rfl⟩

theorem keepsOutgoing_initProgress (tracker : JointTracker) (id : Nat) (isLearner : Bool) :
    KeepsOutgoing tracker (changer.initProgress tracker id isLearner) := by
  cases isLearner <;> exact ⟨rfl, rfl⟩

theorem keepsOutgoing_makeVoter (tracker : JointTracker) (id : Nat) :
    KeepsOutgoing tracker (changer.makeVoter tracker id) := by
  unfold makeVoter
  split
  · exact keepsOutgoing_initProgress tracker id false
  · exact ⟨rfl, rfl⟩

theorem keepsOutgoing_makeLearner (tracker : JointTracker) (id : Nat) :
    KeepsOutgoing tracker (changer.makeLearner tracker id) := by
  have removed := keepsOutgoing_remove tracker id
  simp only [makeLearner]
  split
  · exact keepsOutgoing_initProgress tracker id true
  split
  · exact ⟨rfl, rfl⟩
  · split <;> exact ⟨removed.outgoing, removed.autoLeave⟩

theorem keepsOutgoing_foldl (tracker : JointTracker) (changes : List ConfChangeSingle) :
    KeepsOutgoing tracker (changes.foldl changer.applyOne tracker) := by
  induction changes generalizing tracker with
  | nil => exact ⟨rfl, rfl⟩
  | cons change rest ih =>
    have first : KeepsOutgoing tracker (changer.applyOne tracker change) := by
      unfold applyOne
      split
      · exact ⟨rfl, rfl⟩
      split
      · exact keepsOutgoing_makeVoter tracker change.nodeId
      · exact keepsOutgoing_makeLearner tracker change.nodeId
      · exact keepsOutgoing_remove tracker change.nodeId
      · exact ⟨rfl, rfl⟩
    have others := ih (changer.applyOne tracker change)
    exact ⟨others.outgoing.trans first.outgoing, others.autoLeave.trans first.autoLeave⟩

end JointChanger

/-! ## Configurations that are not joint -/

/-- The tracker of a driver, with an empty outgoing half. -/
def Tracker.toJoint (tracker : Tracker) : JointTracker :=
  ⟨⟨⟨tracker.config.voters, .empty⟩, false, tracker.config.learners, .empty⟩, tracker.progress⟩

def Tracker.jointChanger (tracker : Tracker) (lastIndex : Nat) : JointChanger :=
  ⟨lastIndex, tracker.maxInflight, tracker.maxInflightBytes⟩

namespace Changer

variable {tracker : Tracker}

@[simp] theorem toJoint_get (tracker : Tracker) (id : Nat) :
    tracker.toJoint.progress.get id = tracker.progress.get id := rfl

theorem remove_toJoint (tracker : Tracker) (id : Nat) :
    JointChanger.remove tracker.toJoint id = (remove tracker id).toJoint := by
  cases found : tracker.progress.get id with
  | none => simp only [remove, JointChanger.remove, toJoint_get, found]
  | some progress =>
    simp only [remove, JointChanger.remove, toJoint_get, found]
    rfl

theorem apply_toJoint (lastIndex : Nat) (tracker : Tracker) (type : ConfChangeType) (nodeId : Nat) :
    (tracker.jointChanger lastIndex).applyOne tracker.toJoint ⟨type, nodeId⟩ =
      (apply lastIndex tracker type nodeId).toJoint := by
  unfold apply JointChanger.applyOne
  split
  · rfl
  cases type with
  | addNode =>
    cases found : tracker.progress.get nodeId <;>
      simp only [makeVoter, JointChanger.makeVoter, toJoint_get, found] <;> rfl
  | addLearnerNode =>
    cases found : tracker.progress.get nodeId with
    | none =>
      simp only [makeLearner, JointChanger.makeLearner, toJoint_get, found]
      rfl
    | some progress =>
      simp only [makeLearner, JointChanger.makeLearner, toJoint_get, found, remove_toJoint]
      split <;> rfl
  | removeNode => exact remove_toJoint tracker nodeId
  | updateNode => rfl

theorem checkInvariants_iff : checkInvariants tracker ↔
    (∀ id ∈ tracker.config.voters.toList, tracker.progress.contains id) ∧
      ∀ id ∈ tracker.config.learners.toList, ¬ tracker.config.voters.contains id ∧ tracker.toJoint.isLearner id := by
  rw [checkInvariants, Bool.and_eq_true, List.all_eq_true, List.all_eq_true]
  refine and_congr_right fun _ => forall₂_congr fun id _ => ?_
  rw [JointTracker.isLearner, toJoint_get]
  cases tracker.progress.get id <;> simp

theorem checkInvariants_toJoint :
    JointChanger.checkInvariants tracker.toJoint = .ok () ↔ checkInvariants tracker := by
  have outside (id : Nat) : ¬ Table.contains (Table.empty : IdSet) id := Bool.false_ne_true
  have marked (id : Nat) (isLearner : tracker.toJoint.isLearner id) : tracker.progress.contains id := by
    rw [JointTracker.isLearner, toJoint_get] at isLearner
    rw [Table.contains]
    cases found : tracker.progress.get id <;> simp [found] at isLearner ⊢
  rw [checkInvariants_iff]
  simp only [JointChanger.checkInvariants, check_bind_eq_ok, forM_eq_ok, check_eq_ok, List.mem_append]
  constructor
  · rintro ⟨known, -, learns, -⟩
    exact ⟨fun id mem => known id (.inl (.inl (.inl mem))), fun id mem => (learns id mem).2⟩
  · rintro ⟨known, learns⟩
    refine ⟨?_, fun id mem => absurd mem List.not_mem_nil, fun id mem => ⟨outside id, learns id mem⟩, .inr rfl,
      .inr Bool.false_ne_true⟩
    rintro id (((voter | impossible) | learner) | impossible)
    · exact known id voter
    · cases impossible
    · exact marked id (learns id learner).2
    · cases impossible

/-- `Simple` with one change does to a configuration that is not joint what the driver's tracker does. -/
theorem simple_toJoint (lastIndex : Nat) (tracker : Tracker) (type : ConfChangeType) (nodeId : Nat) :
    ((tracker.jointChanger lastIndex).simple tracker.toJoint [⟨type, nodeId⟩]).toOption =
      (simple lastIndex tracker type nodeId).map Tracker.toJoint := by
  refine Option.ext fun changed => ?_
  rw [toOption_eq_some, JointChanger.simple_eq_ok, checkInvariants_toJoint, Option.map_eq_some_iff]
  rw [List.foldl_cons, List.foldl_nil, apply_toJoint]
  simp only [simple, Option.ite_none_left_eq_some]
  constructor
  · rintro ⟨sound, -, voters, close, still, rfl⟩
    rw [checkInvariants_toJoint] at still
    exact ⟨_, ⟨by simpa using sound, voters, not_lt.mpr close, by simpa using still, rfl⟩, rfl⟩
  · rintro ⟨after, ⟨sound, voters, close, still, same⟩, rfl⟩
    cases same
    have sound : checkInvariants tracker := by simpa using sound
    have still : checkInvariants (apply lastIndex tracker type nodeId) := by simpa using still
    exact ⟨sound, Bool.false_ne_true, voters, not_lt.mp close, checkInvariants_toJoint.mpr still, rfl⟩

end Changer

end RocksGraph.Eraft
