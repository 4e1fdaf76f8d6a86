import RocksGraph.Raft.JointQuorums

/-! What the operations of a `Changer` do to the members of a joint configuration.

The four sets of a configuration give every node a seat, and the progress of a
node says again whether it is a learner. A change moves its own node to another
seat, which depends on the old one only. -/

set_option autoImplicit false

namespace RocksGraph.Eraft

open Foundation JointTracker IdSet

@[ext] structure Seat where
  incoming : Bool
  outgoing : Bool
  learner : Bool
  next : Bool
  deriving DecidableEq, Repr

namespace Seat

def vacant : Seat := ⟨false, false, false, false⟩

def taken (seat : Seat) : Bool := seat.incoming || seat.outgoing || seat.learner || seat.next

/-- A learner is in no other set, and a staged learner still votes in the outgoing half only. -/
def proper (seat : Seat) : Bool :=
  (!seat.learner || (!seat.incoming && !seat.outgoing && !seat.next)) &&
    (!seat.next || (seat.outgoing && !seat.incoming))

def mark (seat : Seat) : Option Bool := if seat.taken then some seat.learner else none

def change (seat : Seat) : ConfChangeType → Seat
  | .addNode => ⟨true, seat.outgoing, false, false⟩
  | .addLearnerNode => ⟨false, seat.outgoing, !seat.outgoing, seat.outgoing⟩
  | .removeNode => ⟨false, seat.outgoing, false, false⟩
  | .updateNode => seat

def leave (seat : Seat) : Seat := ⟨seat.incoming, false, seat.learner || seat.next, false⟩

def double (seat : Seat) : Seat := ⟨seat.incoming, seat.incoming, seat.learner, seat.next⟩

instance (holds : Seat → Prop) [DecidablePred holds] : Decidable (∀ seat, holds seat) :=
  decidable_of_iff (∀ incoming outgoing learner next, holds ⟨incoming, outgoing, learner, next⟩)
    ⟨fun all _ => all .., fun all _ _ _ _ => all _⟩

variable {seat : Seat}

theorem change_change (seat : Seat) (type : ConfChangeType) : (seat.change type).change type = seat.change type := by
  cases type <;> rfl

theorem any_mark (seat : Seat) : seat.mark.any id = seat.learner := by
  revert seat
  decide

theorem eq_vacant : seat.taken = false ↔ seat = vacant := by
  revert seat
  decide

section

variable (proper : seat.proper = true)
include proper

theorem proper_change (type : ConfChangeType) : (seat.change type).proper = true := by
  obtain ⟨incoming, outgoing, learner, next⟩ := seat
  cases type <;> cases outgoing <;> first | exact proper | rfl

theorem mark_of_outgoing (voter : seat.outgoing = true) : seat.mark = some false := by
  revert seat
  decide

theorem eq_of_mark_learner (marked : seat.mark = some true) :
    seat = ⟨false, false, true, false⟩ := by
  revert seat
  decide

theorem next_of_not_outgoing (silent : seat.outgoing = false) : seat.next = false := by
  revert seat
  decide

theorem proper_leave : seat.leave.proper = true := by
  revert seat
  decide

theorem mark_leave : (if seat.outgoing ∧ ¬ (seat.incoming ∨ seat.leave.learner) then none
      else if seat.next then seat.mark.map fun _ => true else seat.mark) = seat.leave.mark := by
  revert seat
  decide

theorem proper_double (silent : seat.outgoing = false) :
    seat.double.proper = true ∧ seat.double.mark = seat.mark := by
  revert seat
  decide

theorem rebuilt :
    let outgoing : Seat := ⟨seat.outgoing, seat.outgoing, false, false⟩
    let removed := if seat.outgoing then outgoing.change .removeNode else outgoing
    let added := if seat.incoming then removed.change .addNode else removed
    let learning := if seat.learner then added.change .addLearnerNode else added
    (if seat.next then learning.change .addLearnerNode else learning) = seat := by
  revert seat
  decide

theorem voter_only (voter : seat.incoming = true) : seat.learner = false ∧ seat.next = false := by
  revert seat
  decide

end

end Seat

variable {id : Nat}

namespace JointTracker

def seat (tracker : JointTracker) (id : Nat) : Seat where
  incoming := tracker.config.voters.incoming.contains id
  outgoing := tracker.config.voters.outgoing.contains id
  learner := tracker.config.learners.contains id
  next := tracker.config.learnersNext.contains id

def mark (tracker : JointTracker) (id : Nat) : Option Bool := (tracker.progress.get id).map Progress.isLearner

structure Seated (tracker : JointTracker) : Prop where
  proper : ∀ id, (tracker.seat id).proper = true
  marked : ∀ id, tracker.mark id = (tracker.seat id).mark
  zero : tracker.seat 0 = .vacant

theorem seated_empty : empty.Seated where
  proper _ := rfl
  marked _ := rfl
  zero := rfl

/-- From one tracker to the other a node moves to the seat, and nothing else changes. -/
structure Moves (before after : JointTracker) (id : Nat) (seat : Seat) : Prop where
  seats : ∀ other, after.seat other = if other = id then seat else before.seat other
  marks : ∀ other, after.mark other = if other = id then seat.mark else before.mark other

theorem Seated.of_moves {before after : JointTracker} {seat : Seat} (seated : before.Seated)
    (moves : before.Moves after id seat) (proper : seat.proper = true) (named : id ≠ 0) : after.Seated where
  proper other := by
    rw [moves.seats]
    split
    · exact proper
    · exact seated.proper other
  marked other := by
    rw [moves.seats, moves.marks]
    split
    · rfl
    · exact seated.marked other
  zero := by
    rw [moves.seats, if_neg named.symm]
    exact seated.zero

theorem Seated.moves_self {tracker : JointTracker} (seated : tracker.Seated) (id : Nat) :
    tracker.Moves tracker id (tracker.seat id) where
  seats other := by
    split
    · simp [*]
    · rfl
  marks other := by
    split
    · simp [*, seated.marked]
    · rfl

theorem Moves.trans {before middle after : JointTracker} {seat seat' : Seat}
    (first : before.Moves middle id seat) (second : middle.Moves after id seat') : before.Moves after id seat' where
  seats other := by
    rw [second.seats, first.seats]
    split <;> rfl
  marks other := by
    rw [second.marks, first.marks]
    split <;> rfl

end JointTracker

namespace JointChanger

variable {changer : JointChanger} {tracker : JointTracker}

theorem mark_put (tracker : JointTracker) (config : JointConfig) (id : Nat) (progress : Progress) (other : Nat) :
    (JointTracker.mark ⟨config, tracker.progress.put id progress⟩ other) =
      if other = id then some progress.isLearner else tracker.mark other := by
  by_cases same : other = id <;> simp [mark, same]

section

variable (seated : tracker.Seated)
include seated

theorem vacant_of_get_none (absent : tracker.progress.get id = none) :
    tracker.seat id = .vacant := by
  have marked := seated.marked id
  rw [mark, absent, Seat.mark] at marked
  rw [← Seat.eq_vacant]
  by_contra taken
  rw [Bool.not_eq_false] at taken
  rw [if_pos taken] at marked
  cases marked

theorem moves_makeVoter (id : Nat) :
    tracker.Moves (changer.makeVoter tracker id) id ((tracker.seat id).change .addNode) := by
  unfold makeVoter
  split
  next absent =>
    have vacant := vacant_of_get_none seated absent
    simp only [seat, Seat.vacant, Seat.mk.injEq] at vacant
    constructor
    · intro other
      by_cases same : other = id
      · subst same
        simp [seat, initProgress, Seat.change, contains_put, vacant]
      · simp [seat, initProgress, contains_put, same]
    · intro other
      exact mark_put tracker _ id _ other
  · constructor
    · intro other
      by_cases same : other = id <;>
        simp [seat, Seat.change, contains_put, contains_erase, same]
    · intro other
      exact mark_put tracker _ id _ other

theorem moves_remove (id : Nat) :
    tracker.Moves (remove tracker id) id ((tracker.seat id).change .removeNode) := by
  unfold remove
  split
  next absent =>
    have same : (tracker.seat id).change .removeNode = tracker.seat id := by
      rw [vacant_of_get_none seated absent]
      rfl
    rw [same]
    exact seated.moves_self id
  · constructor
    · intro other
      by_cases same : other = id <;>
        simp [seat, Seat.change, contains_erase, same]
    · intro other
      by_cases same : other = id
      · subst same
        by_cases voter : tracker.config.voters.outgoing.contains other = true
        · -- The progress is kept, and it is not that of a learner.
          have marked := seated.marked other
          rw [Seat.mark_of_outgoing (seated.proper other) voter] at marked
          have kept : ((tracker.seat other).change .removeNode).mark = some false :=
            Seat.mark_of_outgoing (Seat.proper_change (seated.proper other) .removeNode) voter
          rw [if_pos rfl, kept, ← marked, if_pos voter]
          rfl
        · simp [mark, seat, Seat.mark, Seat.taken, Seat.change, voter]
      · simp only [mark]
        split
        · rfl
        · simp [same]

theorem moves_makeLearner (id : Nat) :
    tracker.Moves (changer.makeLearner tracker id) id ((tracker.seat id).change .addLearnerNode) := by
  simp only [makeLearner]
  split
  next absent =>
    have vacant := vacant_of_get_none seated absent
    simp only [JointTracker.seat, Seat.vacant, Seat.mk.injEq] at vacant
    constructor
    · intro other
      by_cases same : other = id
      · subst same
        simp [JointTracker.seat, initProgress, Seat.change, contains_put, vacant]
      · simp [JointTracker.seat, initProgress, contains_put, same]
    · intro other
      have learner : ((tracker.seat id).change .addLearnerNode).mark = some true := by
        simp [Seat.change, Seat.mark, Seat.taken, JointTracker.seat, vacant]
      rw [learner]
      exact mark_put tracker _ id _ other
  next progress found =>
    have marked := seated.marked id
    rw [JointTracker.mark, found, Option.map_some] at marked
    split
    next isLearner =>
      rw [isLearner] at marked
      have seat := Seat.eq_of_mark_learner (seated.proper id) marked.symm
      have same : (tracker.seat id).change .addLearnerNode = tracker.seat id := by
        rw [seat]
        rfl
      rw [same]
      exact seated.moves_self id
    next notLearner =>
      rw [Bool.not_eq_true] at notLearner
      have removed := moves_remove seated id
      have seat : (remove tracker id).seat id = (tracker.seat id).change .removeNode := by
        rw [removed.seats, if_pos rfl]
      have outgoing : (remove tracker id).config.voters.outgoing.contains id = (tracker.seat id).outgoing := by
        rw [(keepsOutgoing_remove tracker id).outgoing]
        rfl
      split <;> rename_i voter <;> rw [outgoing] at voter <;>
        refine removed.trans ⟨fun other => ?_, fun other => ?_⟩
      case isTrue.refine_1 | isFalse.refine_1 =>
        by_cases same : other = id
        · subst same
          simp only [JointTracker.seat, Seat.change, Seat.mk.injEq] at seat voter
          simp [JointTracker.seat, Seat.change, contains_put, seat, voter]
        · simp [JointTracker.seat, contains_put, same]
      · rw [mark_put (remove tracker id), notLearner,
          Seat.mark_of_outgoing (Seat.proper_change (seated.proper id) .addLearnerNode) voter]
      · have learner : ((tracker.seat id).change .addLearnerNode).mark = some true := by
          simp [Seat.change, Seat.mark, Seat.taken, voter]
        rw [mark_put (remove tracker id), learner]

theorem moves_applyOne {change : ConfChangeSingle} (named : change.nodeId ≠ 0) :
    tracker.Moves (changer.applyOne tracker change) change.nodeId
      ((tracker.seat change.nodeId).change change.type) := by
  obtain ⟨type, id⟩ := change
  rw [applyOne, if_neg named]
  cases type with
  | addNode => exact moves_makeVoter seated id
  | addLearnerNode => exact moves_makeLearner seated id
  | removeNode => exact moves_remove seated id
  | updateNode => exact seated.moves_self id

theorem seated_applyOne (change : ConfChangeSingle) : (changer.applyOne tracker change).Seated := by
  by_cases named : change.nodeId = 0
  · rw [applyOne, if_pos named]
    exact seated
  · exact seated.of_moves (moves_applyOne seated named) (Seat.proper_change (seated.proper _) _) named

theorem seat_applyOne (change : ConfChangeSingle) (id : Nat) :
    (changer.applyOne tracker change).seat id =
      if id = change.nodeId ∧ id ≠ 0 then (tracker.seat id).change change.type else tracker.seat id := by
  by_cases named : change.nodeId = 0
  · rw [applyOne, if_pos named, if_neg fun own => own.2 (own.1.trans named)]
  rw [(moves_applyOne seated named).seats]
  by_cases own : id = change.nodeId
  · rw [if_pos own, if_pos ⟨own, own ▸ named⟩, own]
  · rw [if_neg own, if_neg fun both => own both.1]

theorem seated_foldl (changes : List ConfChangeSingle) :
    (changes.foldl changer.applyOne tracker).Seated := by
  induction changes generalizing tracker with
  | nil => exact seated
  | cons change rest ih => exact ih (seated_applyOne seated change)

end

end JointChanger

def Seat.after (seat : Seat) (id : Nat) (changes : List ConfChangeSingle) : Seat :=
  changes.foldl (fun seat change => if id = change.nodeId ∧ id ≠ 0 then seat.change change.type else seat) seat

theorem Seat.after_append (seat : Seat) (id : Nat) (first second : List ConfChangeSingle) :
    seat.after id (first ++ second) = (seat.after id first).after id second := List.foldl_append

theorem Seat.after_map (seat : Seat) (id : Nat) (type : ConfChangeType) (ids : List Nat) :
    seat.after id (ids.map fun id => ⟨type, id⟩) = if id ∈ ids ∧ id ≠ 0 then seat.change type else seat := by
  induction ids generalizing seat with
  | nil => simp [after]
  | cons first rest ih =>
    have tail : seat.after id ((first :: rest).map fun id => ⟨type, id⟩) =
        (if id = first ∧ id ≠ 0 then seat.change type else seat).after id (rest.map fun id => ⟨type, id⟩) := rfl
    rw [tail, ih]
    by_cases named : id = 0
    · simp [named]
    simp only [List.mem_cons, named, ne_eq, not_false_eq_true, and_true]
    by_cases own : id = first <;> by_cases later : id ∈ rest <;>
      simp [own, change_change]

theorem JointChanger.seat_foldl {changer : JointChanger} {tracker : JointTracker} (seated : tracker.Seated)
    (changes : List ConfChangeSingle) (id : Nat) :
    (changes.foldl changer.applyOne tracker).seat id = (tracker.seat id).after id changes := by
  induction changes generalizing tracker with
  | nil => rfl
  | cons change rest ih =>
    rw [List.foldl_cons, ih (seated_applyOne seated change), seat_applyOne seated]
    rfl

end RocksGraph.Eraft
