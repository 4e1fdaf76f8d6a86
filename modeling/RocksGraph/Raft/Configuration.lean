import RocksGraph.Raft.Tracker

/-! What a configuration change does to the members of a tracker.

A member is a voter or a learner. The two sets of a configuration and the flag
in the progress of a peer say the same about every id, and a change alters the
role of its own node only. -/

set_option autoImplicit false

namespace RocksGraph.Eraft

open Foundation List IdSet ConfChangeType

inductive Role where
  | voter
  | learner
  deriving DecidableEq, Repr

def ConfChangeType.newRole : ConfChangeType → Option Role → Option Role
  | .addNode, _ => some .voter
  | .addLearnerNode, _ => some .learner
  | .removeNode, _ => none
  | .updateNode, role => role

def Progress.role (progress : Progress) : Role :=
  if progress.isLearner then .learner else .voter

variable {id : Nat}

theorem IdSet.mem_toList {ids : IdSet} : id ∈ ids.toList ↔ ids.contains id = true := by
  rw [IdSet.toList, mem_map, Table.contains_iff]
  constructor
  · rintro ⟨⟨_, value⟩, mem, rfl⟩
    exact ⟨value, ids.get_eq_some_iff.mpr mem⟩
  · rintro ⟨value, found⟩
    exact ⟨(id, value), ids.get_eq_some_iff.mp found, rfl⟩

theorem IdSet.toList_nodup (ids : IdSet) : ids.toList.Nodup := by
  rw [IdSet.toList, nodup_iff_pairwise_ne, pairwise_map]
  exact ids.sorted.imp fun less => ne_of_lt less

theorem IdSet.contains_put (ids : IdSet) (id other : Nat) :
    (ids.put id ()).contains other = (decide (other = id) || ids.contains other) := by
  by_cases same : other = id <;> simp [Table.contains, same]

theorem IdSet.contains_erase (ids : IdSet) (id other : Nat) :
    (ids.erase id).contains other = (decide (other ≠ id) && ids.contains other) := by
  by_cases same : other = id <;> simp [Table.contains, same]

theorem Changer.countP_missing_le {ids others : IdSet}
    (same : ∀ other, other ≠ id → ids.contains other = others.contains other) :
    ids.toList.countP (fun other => !others.contains other) ≤
      (ids.contains id && !others.contains id).toNat := by
  have onlyId : ∀ other ∈ ids.toList, (!others.contains other) = true → other = id := by
    intro other mem missing
    by_contra distinct
    rw [mem_toList, same other distinct] at mem
    simp [mem] at missing
  cases test : ids.contains id && !others.contains id with
  | true =>
    calc ids.toList.countP (fun other => !others.contains other)
        ≤ ids.toList.count id :=
          countP_mono_left fun other mem missing => by simpa using onlyId other mem missing
      _ ≤ 1 := nodup_iff_count_le_one.mp ids.toList_nodup id
  | false =>
    refine le_of_eq (countP_eq_zero.mpr fun other mem missing => ?_)
    obtain rfl := onlyId other mem missing
    rw [mem_toList.mp mem, missing] at test
    cases test

theorem Changer.symdiff_le_one {left right : IdSet} (id : Nat)
    (same : ∀ other, other ≠ id → left.contains other = right.contains other) :
    Changer.symdiff left right ≤ 1 := by
  have first := countP_missing_le same
  have second := countP_missing_le fun other distinct => (same other distinct).symm
  unfold Changer.symdiff
  cases inLeft : left.contains id <;> cases inRight : right.contains id <;>
    simp only [inLeft, inRight, Bool.not_true, Bool.not_false, Bool.and_true, Bool.and_false,
      Bool.toNat_true, Bool.toNat_false] at first second <;> omega

namespace Tracker

def role (tracker : Tracker) (id : Nat) : Option Role := (tracker.progress.get id).map Progress.role

structure Consistent (tracker : Tracker) : Prop where
  voters : ∀ id, tracker.config.voters.contains id = true ↔ tracker.role id = some .voter
  learners : ∀ id, tracker.config.learners.contains id = true ↔ tracker.role id = some .learner

theorem consistent_new (maxInflight maxInflightBytes : Nat) :
    (new maxInflight maxInflightBytes).Consistent := by
  constructor <;> intro id <;> simp [new, role, Table.contains]

theorem Consistent.of_update {tracker changed : Tracker} (consistent : tracker.Consistent)
    {role : Option Role}
    (roles : ∀ other, changed.role other = if other = id then role else tracker.role other)
    (voters : ∀ other, changed.config.voters.contains other =
      if other = id then decide (role = some .voter) else tracker.config.voters.contains other)
    (learners : ∀ other, changed.config.learners.contains other =
      if other = id then decide (role = some .learner) else tracker.config.learners.contains other) :
    changed.Consistent := by
  constructor <;> intro other
  · rw [voters, roles]
    split
    · exact decide_eq_true_iff
    · exact consistent.voters other
  · rw [learners, roles]
    split
    · exact decide_eq_true_iff
    · exact consistent.learners other

end Tracker

namespace Changer

variable {tracker : Tracker}

variable (lastIndex : Nat)

theorem role_initProgress (tracker : Tracker) (id : Nat) (isLearner : Bool) (other : Nat) :
    (initProgress lastIndex tracker id isLearner).role other =
      if other = id then some (if isLearner then .learner else .voter) else tracker.role other := by
  by_cases same : other = id <;> simp [initProgress, Tracker.role, Progress.role, same]

theorem role_makeVoter (tracker : Tracker) (id other : Nat) :
    (makeVoter lastIndex tracker id).role other = if other = id then some .voter else tracker.role other := by
  unfold makeVoter
  split
  · exact role_initProgress lastIndex tracker id false other
  · by_cases same : other = id <;> simp [Tracker.role, Progress.role, same]

theorem role_remove (tracker : Tracker) (id other : Nat) :
    (remove tracker id).role other = if other = id then none else tracker.role other := by
  unfold remove
  split
  next missing =>
    by_cases same : other = id <;> simp [Tracker.role, same, missing]
  · by_cases same : other = id <;> simp [Tracker.role, same]

theorem role_makeLearner (tracker : Tracker) (id other : Nat) :
    (makeLearner lastIndex tracker id).role other =
      if other = id then some .learner else tracker.role other := by
  unfold makeLearner
  split
  · exact role_initProgress lastIndex tracker id true other
  rename_i progress found
  split
  next isLearner =>
    by_cases same : other = id <;> simp [Tracker.role, Progress.role, same, found, isLearner]
  · have removed := role_remove tracker id other
    by_cases same : other = id
    · simp [Tracker.role, Progress.role, same]
    · simpa [Tracker.role, same] using removed

theorem role_apply (tracker : Tracker) (type : ConfChangeType) (nodeId other : Nat) :
    (apply lastIndex tracker type nodeId).role other =
      if other = nodeId ∧ nodeId ≠ 0 then type.newRole (tracker.role other) else tracker.role other := by
  unfold apply
  split
  next isZero =>
    simp [isZero]
  next nonzero =>
    cases type with
    | addNode => simp [role_makeVoter, nonzero, newRole]
    | addLearnerNode => simp [role_makeLearner, nonzero, newRole]
    | removeNode => simp [role_remove, nonzero, newRole]
    | updateNode => simp [newRole]

section

variable (consistent : tracker.Consistent)
include consistent

theorem initProgress_consistent
    (missing : tracker.progress.get id = none) (lastIndex : Nat) (isLearner : Bool) :
    (initProgress lastIndex tracker id isLearner).Consistent := by
  have notVoter := consistent.voters id
  have notLearner := consistent.learners id
  rw [Tracker.role, missing] at notVoter notLearner
  refine consistent.of_update (role_initProgress lastIndex tracker id isLearner) ?_ ?_ <;>
    intro other <;> by_cases same : other = id <;> cases isLearner <;>
    simp_all [initProgress, contains_put]

theorem makeVoter_consistent (lastIndex id : Nat) : (makeVoter lastIndex tracker id).Consistent := by
  cases found : tracker.progress.get id with
  | none =>
    simp only [makeVoter, found]
    exact initProgress_consistent consistent found lastIndex false
  | some progress =>
    refine consistent.of_update (role_makeVoter lastIndex tracker id) ?_ ?_ <;> intro other <;>
      by_cases same : other = id <;>
      simp [makeVoter, found, contains_put, contains_erase]

theorem remove_consistent (id : Nat) : (remove tracker id).Consistent := by
  cases found : tracker.progress.get id with
  | none =>
    simp only [remove, found]
    exact consistent
  | some progress =>
    refine consistent.of_update (role_remove tracker id) ?_ ?_ <;> intro other <;>
      by_cases same : other = id <;> simp [remove, found, contains_erase]

theorem makeLearner_consistent (lastIndex id : Nat) :
    (makeLearner lastIndex tracker id).Consistent := by
  cases found : tracker.progress.get id with
  | none =>
    simp only [makeLearner, found]
    exact initProgress_consistent consistent found lastIndex true
  | some progress =>
    cases isLearner : progress.isLearner with
    | true =>
      simp only [makeLearner, found, isLearner]
      exact consistent
    | false =>
      refine consistent.of_update (role_makeLearner lastIndex tracker id) ?_ ?_ <;> intro other <;>
        by_cases same : other = id <;>
        simp [makeLearner, remove, found, isLearner, same, contains_put, contains_erase]

theorem apply_consistent (lastIndex : Nat) (type : ConfChangeType)
    (nodeId : Nat) : (apply lastIndex tracker type nodeId).Consistent := by
  unfold apply
  split
  · exact consistent
  cases type with
  | addNode => exact makeVoter_consistent consistent lastIndex nodeId
  | addLearnerNode => exact makeLearner_consistent consistent lastIndex nodeId
  | removeNode => exact remove_consistent consistent nodeId
  | updateNode => exact consistent

theorem checkInvariants_of_consistent : checkInvariants tracker = true := by
  unfold checkInvariants
  rw [Bool.and_eq_true, all_eq_true, all_eq_true]
  constructor
  · intro id mem
    have isVoter := (consistent.voters id).mp (mem_toList.mp mem)
    obtain ⟨progress, found, -⟩ := Option.map_eq_some_iff.mp isVoter
    simp [Table.contains, found]
  · intro id mem
    have isLearner := (consistent.learners id).mp (mem_toList.mp mem)
    have notVoter := consistent.voters id
    obtain ⟨progress, found, role⟩ := Option.map_eq_some_iff.mp isLearner
    unfold Progress.role at role
    simp_all

theorem simple_of_consistent (lastIndex : Nat) (type : ConfChangeType)
    (nodeId : Nat) :
    simple lastIndex tracker type nodeId =
      if (apply lastIndex tracker type nodeId).config.voters.size = 0 then none
      else some (apply lastIndex tracker type nodeId) := by
  have changed := apply_consistent consistent lastIndex type nodeId
  have close : symdiff tracker.config.voters (apply lastIndex tracker type nodeId).config.voters ≤ 1 := by
    refine symdiff_le_one nodeId fun other distinct => ?_
    rw [Bool.eq_iff_iff, consistent.voters, changed.voters, role_apply, if_neg fun same => distinct same.1]
  simp [simple, checkInvariants_of_consistent consistent, checkInvariants_of_consistent changed, if_neg (not_lt.mpr close)]

theorem simple_consistent {lastIndex : Nat} {type : ConfChangeType}
    {nodeId : Nat} {changed : Tracker} (done : simple lastIndex tracker type nodeId = some changed) :
    changed = apply lastIndex tracker type nodeId ∧ changed.Consistent := by
  rw [simple_of_consistent consistent] at done
  split at done
  · cases done
  · cases done
    exact ⟨rfl, apply_consistent consistent lastIndex type nodeId⟩

end

theorem simple_addNode (consistent : tracker.Consistent) (lastIndex : Nat) {nodeId : Nat} (nonzero : nodeId ≠ 0) :
    simple lastIndex tracker .addNode nodeId = some (apply lastIndex tracker .addNode nodeId) := by
  rw [simple_of_consistent consistent, if_neg]
  have changed := apply_consistent consistent lastIndex .addNode nodeId
  have isVoter : (apply lastIndex tracker .addNode nodeId).role nodeId = some .voter := by
    rw [role_apply, if_pos ⟨rfl, nonzero⟩]
    rfl
  have mem := mem_toList.mpr ((changed.voters nodeId).mpr isVoter)
  rw [IdSet.toList] at mem
  simpa [IdSet.size] using ne_nil_of_mem mem

end Changer

end RocksGraph.Eraft
