import RocksGraph.Foundation.Transition
import RocksGraph.Raft.JointMembers

/-! Restoring a configuration from its `ConfState`.

Whatever operations led to a configuration, `Restore` on an empty tracker leads
to it again: the outgoing voters are added one at a time, and the remaining
changes then give every node the seat it had. -/

set_option autoImplicit false

namespace RocksGraph.Eraft

open Foundation List JointTracker IdSet

theorem IdSet.ext_contains {ids others : IdSet} (same : ∀ id, ids.contains id = others.contains id) :
    ids = others := by
  apply Table.ext_get
  intro id
  have both := same id
  simp only [Table.contains] at both
  cases first : ids.get id <;> cases second : others.get id <;> simp [first, second] at both ⊢

theorem IdSet.toList_eq_nil {ids : IdSet} (none : ∀ id, ids.contains id = false) : ids.toList = [] := by
  apply eq_nil_iff_forall_not_mem.mpr
  intro id mem
  rw [mem_toList, none] at mem
  cases mem

namespace JointTracker

variable {tracker : JointTracker}

theorem outgoing_empty (plain : ¬ tracker.config.joint) (id : Nat) : (tracker.seat id).outgoing = false := by
  have none : tracker.config.voters.outgoing.size = 0 := by simpa [JointConfig.joint] using plain
  exact size_eq_zero_iff.mp none id

theorem Seated.contains_progress (seated : tracker.Seated) (id : Nat) :
    tracker.progress.contains id = (tracker.seat id).taken := by
  have marked := seated.marked id
  rw [mark, Seat.mark] at marked
  rw [Table.contains]
  cases found : tracker.progress.get id <;> cases taken : (tracker.seat id).taken <;>
    simp [found, taken] at marked ⊢

theorem Seated.isLearner_eq (seated : tracker.Seated) (id : Nat) :
    tracker.isLearner id = (tracker.seat id).learner := by
  rw [← Seat.any_mark, ← seated.marked, mark, isLearner]
  cases tracker.progress.get id <;> rfl

end JointTracker

namespace JointChanger

variable {changer : JointChanger} {tracker changed : JointTracker}

theorem checkInvariants_of_seated (seated : tracker.Seated) :
    checkInvariants tracker = .ok () ↔ tracker.config.joint ∨ tracker.config.autoLeave = false := by
  simp only [checkInvariants, check_bind_eq_ok, forM_eq_ok, check_eq_ok, mem_toList, mem_append,
    seated.isLearner_eq, seated.contains_progress]
  constructor
  · rintro ⟨-, -, -, -, left⟩
    simpa using left
  · intro left
    refine ⟨?_, ?_, ?_, ?_, ?_⟩
    · intro id mem
      simpa [Seat.taken, seat] using mem
    · intro id staged
      have proper := seated.proper id
      simp only [Seat.proper, seat] at proper ⊢
      simp_all
    · intro id learner
      have proper := seated.proper id
      simp only [Seat.proper, seat] at proper ⊢
      simp_all
    · by_cases joint : tracker.config.joint = true
      · exact .inl joint
      · exact .inr (size_eq_zero_iff.mpr fun id =>
          Seat.next_of_not_outgoing (seated.proper id) (outgoing_empty joint id))
    · simpa using left

theorem joint_iff_exists (tracker : JointTracker) :
    tracker.config.joint = true ↔ ∃ id, (tracker.seat id).outgoing = true := by
  rw [JointConfig.joint, decide_eq_true_eq, ne_eq, size_eq_zero_iff, not_forall]
  exact exists_congr fun id => iff_of_eq (Bool.not_eq_false _)

theorem incoming_ne_zero_iff (tracker : JointTracker) :
    tracker.config.voters.incoming.size ≠ 0 ↔ ∃ id, (tracker.seat id).incoming = true := by
  rw [ne_eq, size_eq_zero_iff, not_forall]
  exact exists_congr fun id => iff_of_eq (Bool.not_eq_false _)

theorem get_foldl_erase (keep : Nat → Prop) [DecidablePred keep] (ids : List Nat) (progress : Table Nat Progress)
    (id : Nat) :
    (ids.foldl (fun progress id => if keep id then progress else progress.erase id) progress).get id =
      if id ∈ ids ∧ ¬ keep id then none else progress.get id := by
  induction ids generalizing progress with
  | nil => simp
  | cons first rest ih =>
    rw [foldl_cons, ih]
    by_cases own : id = first
    · subst own
      by_cases kept : keep id <;> simp [kept]
    · by_cases kept : keep first <;> simp [kept, own]

theorem mark_foldl_mark (ids : List Nat) (progress : Table Nat Progress) (id : Nat) :
    ((ids.foldl markLearner progress).get id).map Progress.isLearner =
      if id ∈ ids then ((progress.get id).map fun _ => true) else (progress.get id).map Progress.isLearner := by
  induction ids generalizing progress with
  | nil => simp
  | cons first rest ih =>
    rw [foldl_cons, ih]
    by_cases own : id = first
    · subst own
      cases found : progress.get id <;> simp [markLearner, found]
    · cases found : progress.get first <;> simp [markLearner, found, own]

theorem contains_foldl_put (ids : List Nat) (learners : IdSet) (id : Nat) :
    (ids.foldl (fun learners id => learners.put id ()) learners).contains id =
      (decide (id ∈ ids) || learners.contains id) := by
  induction ids generalizing learners with
  | nil => simp
  | cons first rest ih =>
    rw [foldl_cons, ih, contains_put]
    by_cases own : id = first <;> simp [own]

theorem seat_left (tracker : JointTracker) (id : Nat) : (left tracker).seat id = (tracker.seat id).leave := by
  have learner := contains_foldl_put tracker.config.learnersNext.toList tracker.config.learners id
  simp only [mem_toList, Bool.decide_eq_true] at learner
  simp only [left, seat, learner, Bool.or_comm]
  rfl

theorem mark_left (tracker : JointTracker) (id : Nat) : (left tracker).mark id =
    if (tracker.seat id).outgoing ∧ ¬ ((tracker.seat id).incoming ∨ (tracker.seat id).leave.learner) then none
    else if (tracker.seat id).next then (tracker.mark id).map fun _ => true
    else tracker.mark id := by
  have learner : (left tracker).config.learners.contains id = (tracker.seat id).leave.learner :=
    congrArg Seat.learner (seat_left tracker id)
  have erased : (left tracker).mark id =
      (if (tracker.seat id).outgoing ∧ ¬ ((tracker.seat id).incoming ∨ (left tracker).config.learners.contains id) then
        none else (tracker.config.learnersNext.toList.foldl markLearner tracker.progress).get id).map
          Progress.isLearner := by
    simp only [mark, left, get_foldl_erase, mem_toList]
    rfl
  rw [erased, learner, apply_ite (Option.map Progress.isLearner), mark_foldl_mark]
  simp only [mem_toList, mark, Option.map_map]
  rfl

theorem seated_left (seated : tracker.Seated) : (left tracker).Seated where
  proper id := by
    rw [seat_left]
    exact Seat.proper_leave (seated.proper id)
  marked id := by
    rw [mark_left, seat_left, seated.marked]
    exact Seat.mark_leave (seated.proper id)
  zero := by
    rw [seat_left, seated.zero]
    rfl

theorem seated_doubled (seated : tracker.Seated) (plain : ¬ tracker.config.joint) : (doubled tracker).Seated where
  proper id := (Seat.proper_double (seated.proper id) (outgoing_empty plain id)).1
  marked id := (seated.marked id).trans
    (Seat.proper_double (seated.proper id) (outgoing_empty plain id)).2.symm
  zero := congrArg Seat.double seated.zero

theorem seated_withAutoLeave (seated : tracker.Seated) (autoLeave : Bool) :
    (withAutoLeave tracker autoLeave).Seated where
  proper := seated.proper
  marked := seated.marked
  zero := seated.zero

end JointChanger

structure JointTracker.Sound (tracker : JointTracker) : Prop extends tracker.Seated where
  plain : tracker.config.joint ∨ tracker.config.autoLeave = false
  voters : (∃ id, (tracker.seat id).incoming = true) ∨ ∀ id, tracker.seat id = .vacant

theorem JointTracker.sound_empty : JointTracker.empty.Sound where
  toSeated := seated_empty
  plain := .inr rfl
  voters := .inr fun _ => rfl

namespace JointChanger

variable {changer : JointChanger} {tracker changed : JointTracker}

theorem sound_operate {operation : ConfChangeOperation} (sound : tracker.Sound)
    (done : changer.operate tracker operation = .ok changed) : changed.Sound := by
  cases operation with
  | simple changes =>
    obtain ⟨-, -, voters, -, checked, rfl⟩ := simple_eq_ok.mp done
    have seated : (changes.foldl changer.applyOne tracker).Seated := seated_foldl sound.toSeated changes
    exact ⟨seated, (checkInvariants_of_seated seated).mp checked, .inl ((incoming_ne_zero_iff _).mp voters)⟩
  | enterJoint autoLeave changes =>
    obtain ⟨-, plain, -, voters, checked, rfl⟩ := enterJoint_eq_ok.mp done
    have applied : (changes.foldl changer.applyOne (doubled tracker)).Seated :=
      seated_foldl (seated_doubled sound.toSeated plain) changes
    have seated := seated_withAutoLeave applied autoLeave
    exact ⟨seated, (checkInvariants_of_seated seated).mp checked, .inl ((incoming_ne_zero_iff _).mp voters)⟩
  | leaveJoint =>
    obtain ⟨-, joint, -, rfl⟩ := leaveJoint_eq_ok.mp done
    refine ⟨seated_left sound.toSeated, .inr rfl, ?_⟩
    -- The outgoing half has a voter, so the configuration is not the empty one.
    obtain ⟨voter, outgoing⟩ := (joint_iff_exists tracker).mp joint
    rcases sound.voters with ⟨id, incoming⟩ | vacant
    · exact .inl ⟨id, by exact incoming⟩
    · rw [vacant] at outgoing
      cases outgoing

/-- One operation of some `Changer`; a failed one ends the process. -/
def step (tracker : JointTracker) (action : JointChanger × ConfChangeOperation) : Option JointTracker :=
  (action.1.operate tracker action.2).toOption

theorem sound_after {actions : List (JointChanger × ConfChangeOperation)}
    (run : Runs step anyAction .empty actions tracker) : tracker.Sound := by
  apply run.invariant JointTracker.Sound sound_empty
  intro before action after sound _ taken
  rw [step] at taken
  cases done : action.1.operate before action.2 with
  | error error => simp [done, Except.toOption] at taken
  | ok result =>
    rw [done, Except.toOption, Option.some.injEq] at taken
    subst taken
    exact sound_operate sound done

structure Plain (tracker : JointTracker) : Prop extends tracker.Seated where
  single : ¬ tracker.config.joint
  stays : tracker.config.autoLeave = false

theorem plain_empty : Plain .empty where
  toSeated := seated_empty
  single := by decide
  stays := rfl

theorem plain_foldl (plain : Plain tracker) (changes : List ConfChangeSingle) :
    Plain (changes.foldl changer.applyOne tracker) where
  toSeated := seated_foldl plain.toSeated changes
  single := by
    rw [JointConfig.joint, (keepsOutgoing_foldl tracker changes).outgoing]
    exact plain.single
  stays := (keepsOutgoing_foldl tracker changes).autoLeave.trans plain.stays

variable {voter : Nat}

theorem simple_single (plain : Plain tracker) {change : ConfChangeSingle}
    (incoming : ((changer.applyOne tracker change).seat voter).incoming = true) :
    changer.simple tracker [change] = .ok (changer.applyOne tracker change) := by
  have after : Plain (changer.applyOne tracker change) := plain_foldl plain [change]
  apply simple_eq_ok.mpr
  refine ⟨(checkInvariants_of_seated plain.toSeated).mpr (.inr plain.stays), plain.single,
    (incoming_ne_zero_iff _).mpr ⟨voter, incoming⟩, ?_, (checkInvariants_of_seated after.toSeated).mpr (.inr after.stays),
    rfl⟩
  apply Changer.symdiff_le_one change.nodeId
  intro other distinct
  have same : (changer.applyOne tracker change).seat other = tracker.seat other := by
    rw [seat_applyOne plain.toSeated, if_neg fun own => distinct own.1]
  exact (congrArg Seat.incoming same).symm

variable {changes : List ConfChangeSingle}

theorem foldlM_simple (plain : Plain tracker) (incoming : (tracker.seat voter).incoming = true)
    (kept : ∀ change ∈ changes, change.nodeId = voter → change.type = .addNode) :
    changes.foldlM (fun tracker change => changer.simple tracker [change]) tracker =
      .ok (changes.foldl changer.applyOne tracker) := by
  induction changes generalizing tracker with
  | nil => rfl
  | cons change rest ih =>
    rw [forall_mem_cons] at kept
    have still : ((changer.applyOne tracker change).seat voter).incoming = true := by
      rw [seat_applyOne plain.toSeated]
      split
      next own =>
        rw [kept.1 own.1.symm]
        rfl
      · exact incoming
    rw [foldlM_cons, simple_single plain still]
    exact ih (plain_foldl plain [change]) still kept.2

theorem foldlM_simple_empty (named : voter ≠ 0)
    (kept : ∀ change ∈ changes, change.nodeId = voter → change.type = .addNode) :
    (⟨.addNode, voter⟩ :: changes).foldlM (fun tracker change => changer.simple tracker [change]) .empty =
      .ok ((⟨.addNode, voter⟩ :: changes).foldl changer.applyOne .empty) := by
  have incoming : ((changer.applyOne .empty ⟨.addNode, voter⟩).seat voter).incoming = true := by
    rw [seat_applyOne seated_empty, if_pos ⟨rfl, named⟩]
    rfl
  rw [foldlM_cons, simple_single plain_empty incoming]
  exact foldlM_simple (plain_foldl plain_empty [_]) incoming kept

theorem after_toConfChangeSingle (seated : tracker.Seated) (id : Nat) :
    Seat.after ⟨(tracker.seat id).outgoing, (tracker.seat id).outgoing, false, false⟩ id
      (toConfChangeSingle tracker.confState).2 = tracker.seat id := by
  simp only [toConfChangeSingle, confState, Seat.after_append, Seat.after_map, mem_toList]
  by_cases named : id = 0
  · subst named
    rw [seated.zero]
    simp [Seat.vacant]
  · simp only [named, ne_eq, not_false_eq_true, and_true]
    exact Seat.rebuilt (seated.proper id)

theorem config_eq_of_seats {first second : JointTracker} (seats : ∀ id, first.seat id = second.seat id)
    (autoLeave : first.config.autoLeave = second.config.autoLeave) : first.config = second.config := by
  have incoming : first.config.voters.incoming = second.config.voters.incoming :=
    ext_contains fun id => congrArg Seat.incoming (seats id)
  have outgoing : first.config.voters.outgoing = second.config.voters.outgoing :=
    ext_contains fun id => congrArg Seat.outgoing (seats id)
  have learners : first.config.learners = second.config.learners :=
    ext_contains fun id => congrArg Seat.learner (seats id)
  have staged : first.config.learnersNext = second.config.learnersNext :=
    ext_contains fun id => congrArg Seat.next (seats id)
  obtain ⟨⟨⟨_, _⟩, _, _, _⟩, _⟩ := first
  simp_all

theorem restore_eq_of_not_joint (sound : tracker.Sound) (plain : ¬ tracker.config.joint) :
    changer.restore .empty tracker.confState =
      .ok ((toConfChangeSingle tracker.confState).2.foldl changer.applyOne .empty) := by
  have outgoing : tracker.config.voters.outgoing.toList = [] :=
    toList_eq_nil (outgoing_empty plain)
  cases voters : tracker.config.voters.incoming.toList with
  | nil =>
    -- There is no learner without a voter.
    have vacant : ∀ id, tracker.seat id = .vacant := by
      rcases sound.voters with ⟨id, incoming⟩ | vacant
      · have mem := mem_toList.mpr incoming
        rw [voters] at mem
        cases mem
      · exact vacant
    have learners : tracker.config.learners.toList = [] :=
      toList_eq_nil fun id => congrArg Seat.learner (vacant id)
    have staged : tracker.config.learnersNext.toList = [] :=
      toList_eq_nil fun id => congrArg Seat.next (vacant id)
    simp only [confState, outgoing, voters, learners, staged]
    rfl
  | cons voter rest =>
    have incoming : (tracker.seat voter).incoming = true :=
      mem_toList.mp (by rw [voters]; exact mem_cons_self)
    have named : voter ≠ 0 := by
      rintro rfl
      rw [sound.zero] at incoming
      cases incoming
    have alone := Seat.voter_only (sound.proper voter) incoming
    simp only [confState, outgoing, voters]
    apply foldlM_simple_empty named
    intro change mem own
    simp only [append_eq, mem_append, mem_map, mem_toList] at mem
    rcases mem with (⟨_, -, rfl⟩ | ⟨id, learner, rfl⟩) | ⟨id, staged, rfl⟩
    · rfl
    · subst own
      exact absurd learner (Bool.eq_false_iff.mp alone.1)
    · subst own
      exact absurd staged (Bool.eq_false_iff.mp alone.2)

theorem seat_outgoing_added (seated : tracker.Seated) (id : Nat) :
    ((toConfChangeSingle tracker.confState).1.foldl changer.applyOne .empty).seat id =
      ⟨(tracker.seat id).outgoing, false, false, false⟩ := by
  rw [seat_foldl seated_empty]
  simp only [toConfChangeSingle, confState, Seat.after_map, mem_toList]
  by_cases named : id = 0
  · subst named
    rw [seated.zero, if_neg fun own => own.2 rfl]
    rfl
  · by_cases voter : tracker.config.voters.outgoing.contains id = true
    · have outgoing : (tracker.seat id).outgoing = true := voter
      rw [if_pos ⟨voter, named⟩, outgoing]
      rfl
    · have silent : (tracker.seat id).outgoing = false := Bool.eq_false_iff.mpr voter
      rw [if_neg fun own => voter own.1, silent]
      rfl

theorem foldlM_outgoing (seated : tracker.Seated) :
    (toConfChangeSingle tracker.confState).1.foldlM (fun tracker change => changer.simple tracker [change]) .empty =
      .ok ((toConfChangeSingle tracker.confState).1.foldl changer.applyOne .empty) := by
  simp only [confState]
  cases voters : tracker.config.voters.outgoing.toList with
  | nil => rfl
  | cons voter rest =>
    have outgoing : (tracker.seat voter).outgoing = true :=
      mem_toList.mp (by rw [voters]; exact mem_cons_self)
    apply foldlM_simple_empty
    · rintro rfl
      rw [seated.zero] at outgoing
      cases outgoing
    · intro change mem _
      obtain ⟨id, -, rfl⟩ := mem_map.mp mem
      rfl

theorem restore_of_joint (sound : tracker.Sound) (joint : tracker.config.joint) :
    ∃ restored, changer.restore .empty tracker.confState = .ok restored ∧ restored.Seated ∧
      (∀ id, restored.seat id = tracker.seat id) ∧ restored.config.autoLeave = tracker.config.autoLeave := by
  let added := (toConfChangeSingle tracker.confState).1.foldl changer.applyOne .empty
  let restored := withAutoLeave ((toConfChangeSingle tracker.confState).2.foldl changer.applyOne (doubled added))
    tracker.config.autoLeave
  have plain : Plain added := plain_foldl plain_empty _
  have doubledSeated := seated_doubled plain.toSeated plain.single
  have seated : restored.Seated := seated_withAutoLeave (seated_foldl doubledSeated _) _
  have seats : ∀ id, restored.seat id = tracker.seat id := by
    intro id
    have start : (doubled added).seat id = ⟨(tracker.seat id).outgoing, (tracker.seat id).outgoing, false, false⟩ :=
      congrArg Seat.double (seat_outgoing_added sound.toSeated id)
    calc restored.seat id
        = ((doubled added).seat id).after id (toConfChangeSingle tracker.confState).2 := seat_foldl doubledSeated _ id
      _ = tracker.seat id := by rw [start, after_toConfChangeSingle sound.toSeated]
  obtain ⟨voter, outgoing⟩ := (joint_iff_exists tracker).mp joint
  have voters : ∃ id, (tracker.seat id).incoming = true := by
    rcases sound.voters with found | vacant
    · exact found
    · rw [vacant] at outgoing
      cases outgoing
  refine ⟨restored, ?_, seated, seats, rfl⟩
  have entered : changer.enterJoint added tracker.config.autoLeave (toConfChangeSingle tracker.confState).2 =
      .ok restored := by
    apply enterJoint_eq_ok.mpr
    refine ⟨(checkInvariants_of_seated plain.toSeated).mpr (.inr plain.stays), plain.single, ?_, ?_, ?_, rfl⟩
    · exact (incoming_ne_zero_iff added).mpr ⟨voter, by rw [seat_outgoing_added sound.toSeated]; exact outgoing⟩
    · obtain ⟨id, incoming⟩ := voters
      exact (incoming_ne_zero_iff restored).mpr ⟨id, by rw [seats]; exact incoming⟩
    · exact (checkInvariants_of_seated seated).mpr
        (.inl ((joint_iff_exists restored).mpr ⟨voter, by rw [seats]; exact outgoing⟩))
  have replayed : (toConfChangeSingle tracker.confState).1.foldlM
      (fun tracker change => changer.simple tracker [change]) .empty = .ok added :=
    foldlM_outgoing sound.toSeated
  have nonempty : (toConfChangeSingle tracker.confState).1.isEmpty = false := by
    have mem := mem_toList.mpr outgoing
    cases voters : tracker.config.voters.outgoing.toList with
    | nil =>
      rw [voters] at mem
      cases mem
    | cons first rest =>
      simp only [confState, voters]
      rfl
  simp only [restore, nonempty]
  rw [replayed]
  exact entered

/-- Whatever operations lead from the empty configuration to one, `Restore` of its `ConfState` on the empty tracker leads
there again, and tracks the progress of its members. -/
theorem restore_confState {actions : List (JointChanger × ConfChangeOperation)}
    (run : Runs step anyAction .empty actions tracker) :
    ∃ restored, changer.restore .empty tracker.confState = .ok restored ∧ restored.config = tracker.config ∧
      ∀ id, restored.progress.contains id = true ↔
        tracker.config.voters.incoming.contains id = true ∨ tracker.config.voters.outgoing.contains id = true ∨
          tracker.config.learners.contains id = true ∨ tracker.config.learnersNext.contains id = true := by
  have sound := sound_after run
  have again : ∃ restored, changer.restore .empty tracker.confState = .ok restored ∧ restored.Seated ∧
      (∀ id, restored.seat id = tracker.seat id) ∧ restored.config.autoLeave = tracker.config.autoLeave := by
    by_cases joint : tracker.config.joint = true
    · exact restore_of_joint sound joint
    · refine ⟨_, restore_eq_of_not_joint sound joint, seated_foldl seated_empty _, ?_, ?_⟩
      · intro id
        rw [seat_foldl seated_empty]
        have rebuilt := after_toConfChangeSingle sound.toSeated id
        rw [outgoing_empty joint id] at rebuilt
        exact rebuilt
      · rw [(plain_foldl plain_empty _).stays]
        exact (sound.plain.resolve_left joint).symm
  obtain ⟨restored, done, seated, seats, autoLeave⟩ := again
  refine ⟨restored, done, config_eq_of_seats seats autoLeave, ?_⟩
  intro id
  rw [seated.contains_progress, seats]
  simp [Seat.taken, seat, or_assoc]

/-- Nodes 1 and 2 vote and 3 learns; then 2 is to learn, 3 to vote and 4 is added. -/
theorem restore_confState_joint :
    let changer : JointChanger := ⟨1, 256, 0⟩
    let actions : List (JointChanger × ConfChangeOperation) := [(changer, .simple [⟨.addNode, 1⟩]),
      (changer, .simple [⟨.addNode, 2⟩]), (changer, .simple [⟨.addLearnerNode, 3⟩]),
      (changer, .enterJoint true [⟨.addLearnerNode, 2⟩, ⟨.addNode, 3⟩, ⟨.addLearnerNode, 4⟩])]
    ∃ tracker, Runs step anyAction .empty actions tracker ∧
      tracker.confState = ⟨[1, 3], [1, 2], [4], [2], true⟩ ∧
      ∃ restored, changer.restore .empty ⟨[1, 3], [1, 2], [4], [2], true⟩ = .ok restored ∧
        restored.config = tracker.config := by
  intro changer actions
  have run : (execute step anyAction .empty actions).map confState =
      some ⟨[1, 3], [1, 2], [4], [2], true⟩ := by decide +kernel
  obtain ⟨tracker, executed, state⟩ := Option.map_eq_some_iff.mp run
  obtain ⟨restored, done, config, -⟩ := restore_confState (runs_of_execute executed)
  rw [state] at done
  exact ⟨tracker, runs_of_execute executed, state, restored, done, config⟩

end JointChanger

end RocksGraph.Eraft
