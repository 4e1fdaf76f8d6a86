import Mathlib.Order.Bounds.Basic
import RocksGraph.Foundation.Quorum
import RocksGraph.Raft.Configuration
import RocksGraph.Raft.JointConfig

/-! Quorums of joint configurations.

The committed index is the largest that a majority of each half has reached, and
the quorums on both sides of a configuration change have a voter in common. The
change that leads out of an empty configuration is the exception: no vote at all
wins an election there. -/

set_option autoImplicit false

namespace RocksGraph.Eraft

open Foundation List Option Majority

theorem IdSet.length_toList (ids : IdSet) : ids.toList.length = ids.size := by
  rw [toList, length_map, size]

theorem IdSet.size_eq_zero_iff {ids : IdSet} : ids.size = 0 ↔ ∀ id, ids.contains id = false := by
  rw [← length_toList, length_eq_zero_iff, eq_nil_iff_forall_not_mem]
  exact forall_congr' fun id => by rw [mem_toList, Bool.not_eq_true]

variable {ackedIndex : Nat → Option Nat}

namespace Majority

/-- The voter has acknowledged the index; one that has not reported has acknowledged nothing. -/
def reaches (ackedIndex : Nat → Option Nat) (index id : Nat) : Bool := index ≤ (ackedIndex id).getD 0

def Acknowledged (voters : IdSet) (ackedIndex : Nat → Option Nat) (index : Nat) : Prop :=
  quorum voters ≤ voters.toList.countP (reaches ackedIndex index)

theorem reported_perm (ids : List Nat) (ackedIndex : Nat → Option Nat) :
    (ids.map fun id => (ackedIndex id).getD 0).Perm
      (List.replicate (ids.length - (ids.filterMap ackedIndex).length) 0 ++ ids.filterMap ackedIndex) := by
  induction ids with
  | nil => exact .nil
  | cons id rest ih =>
    have fewer : (rest.filterMap ackedIndex).length ≤ rest.length := length_filterMap_le _ _
    cases reported : ackedIndex id with
    | none =>
      have slots : (id :: rest).length - (rest.filterMap ackedIndex).length =
          rest.length - (rest.filterMap ackedIndex).length + 1 := by
        rw [length_cons]
        omega
      rw [filterMap_cons_none reported, slots, map_cons, reported]
      exact ih.cons 0
    | some index =>
      rw [filterMap_cons_some reported, map_cons, reported, length_cons, length_cons,
        Nat.add_sub_add_right]
      exact (ih.cons index).trans perm_middle.symm

variable {voters : IdSet}

theorem le_committedIndex_iff (nonempty : voters.size ≠ 0) (ackedIndex : Nat → Option Nat)
    (index : Nat) : index ≤ committedIndex voters ackedIndex ↔ Acknowledged voters ackedIndex index := by
  let reported := voters.toList.filterMap ackedIndex
  let slots := List.replicate (voters.size - (reported.insertionSort (· ≤ ·)).length) 0 ++
    reported.insertionSort (· ≤ ·)
  have perm : (voters.toList.map fun id => (ackedIndex id).getD 0).Perm slots := by
    have unsorted := reported_perm voters.toList ackedIndex
    rw [IdSet.length_toList] at unsorted
    have sortedPerm : (reported.insertionSort (· ≤ ·)).Perm reported := perm_insertionSort _ _
    simp only [slots, sortedPerm.length_eq]
    exact unsorted.trans (List.Perm.append_left _ sortedPerm.symm)
  have sorted : slots.Pairwise (· ≤ ·) := by
    rw [pairwise_append]
    refine ⟨pairwise_replicate.mpr (.inr Nat.le.refl), pairwise_insertionSort _ _, ?_⟩
    intro least mem value _
    rw [eq_of_mem_replicate mem]
    exact Nat.zero_le value
  have length : slots.length = voters.size := by
    rw [← perm.length_eq, length_map, IdSet.length_toList]
  have enough : quorum voters ≤ voters.size := by
    unfold quorum
    omega
  have inside : voters.size - quorum voters < slots.length := by
    rw [length]
    unfold quorum at *
    omega
  have place := sub_le_countP_iff sorted inside index
  rw [length, Nat.sub_sub_self enough, ← perm.countP_eq, countP_map] at place
  rw [committedIndex, if_neg nonempty]
  exact place.symm

theorem le_committedIndex_iff_of_fits {index : Nat}
    (fits : index < 2 ^ 64) : index ≤ committedIndex voters ackedIndex ↔
      (voters.size ≠ 0 → Acknowledged voters ackedIndex index) := by
  by_cases empty : voters.size = 0
  · have unbounded : index ≤ committedIndex voters ackedIndex := by
      rw [committedIndex, if_pos empty]
      omega
    exact ⟨fun _ nonempty => absurd empty nonempty, fun _ => unbounded⟩
  · rw [le_committedIndex_iff empty]
    exact ⟨fun acknowledged _ => acknowledged, fun acknowledged => acknowledged empty⟩

theorem committedIndex_lt
    (fits : ∀ id index, ackedIndex id = some index → index < 2 ^ 64) : committedIndex voters ackedIndex < 2 ^ 64 := by
  by_cases empty : voters.size = 0
  · rw [committedIndex, if_pos empty]
    decide
  · -- Some voter has reached the index, and what it reported fits.
    have reached := (le_committedIndex_iff empty ackedIndex _).mp Nat.le.refl
    have counted : 0 < voters.toList.countP (reaches ackedIndex (committedIndex voters ackedIndex)) :=
      lt_of_lt_of_le (Nat.succ_pos _) reached
    obtain ⟨id, -, above⟩ := countP_pos_iff.mp counted
    rw [reaches, decide_eq_true_eq] at above
    cases reported : ackedIndex id with
    | none =>
      rw [reported, getD_none] at above
      omega
    | some index =>
      rw [reported] at above
      exact lt_of_le_of_lt above (fits id index reported)

end Majority

namespace JointVoters

theorem committedIndex_eq_min (voters : JointVoters) (ackedIndex : Nat → Option Nat) :
    voters.committedIndex ackedIndex =
      min (Majority.committedIndex voters.incoming ackedIndex) (Majority.committedIndex voters.outgoing ackedIndex) := by
  simp only [committedIndex]
  split <;> omega

def Acknowledged (voters : JointVoters) (ackedIndex : Nat → Option Nat) (index : Nat) : Prop :=
  (voters.incoming.size ≠ 0 → Majority.Acknowledged voters.incoming ackedIndex index) ∧
    (voters.outgoing.size ≠ 0 → Majority.Acknowledged voters.outgoing ackedIndex index)

theorem le_committedIndex_iff {voters : JointVoters} {index : Nat}
    (fits : index < 2 ^ 64) : index ≤ voters.committedIndex ackedIndex ↔ voters.Acknowledged ackedIndex index := by
  rw [committedIndex_eq_min, le_min_iff, le_committedIndex_iff_of_fits fits,
    le_committedIndex_iff_of_fits fits]
  rfl

theorem committedIndex_isGreatest (voters : JointVoters)
    (fits : ∀ id index, ackedIndex id = some index → index < 2 ^ 64) :
    IsGreatest { index | index < 2 ^ 64 ∧ voters.Acknowledged ackedIndex index } (voters.committedIndex ackedIndex) := by
  have bounded : voters.committedIndex ackedIndex < 2 ^ 64 := by
    rw [committedIndex_eq_min]
    exact lt_of_le_of_lt (min_le_left _ _) (committedIndex_lt fits)
  constructor
  · exact ⟨bounded, (le_committedIndex_iff bounded).mp Nat.le.refl⟩
  · rintro index ⟨small, acknowledged⟩
    exact (le_committedIndex_iff small).mpr acknowledged

end JointVoters

theorem IdSet.card_sdiff (ids others : IdSet) : (ids.toList.toFinset \ others.toList.toFinset).card =
    ids.toList.countP fun id => !others.contains id := by
  have missing : ids.toList.toFinset \ others.toList.toFinset =
      ids.toList.toFinset.filter fun id => (!others.contains id) = true := by
    ext id
    simp [mem_toList]
  rw [missing, card_filter_toFinset ids.toList_nodup]

namespace Majority

variable {votes : Nat → Option Bool}

theorem voteResult_eq_won {voters : IdSet} (nonempty : voters.size ≠ 0)
    (won : voteResult voters votes = .won) : quorum voters ≤ voters.toList.countP fun id => votes id = some true := by
  simp only [voteResult, if_neg nonempty] at won
  split at won
  · assumption
  · split at won <;> cases won

theorem card_lt_of_won {voters : IdSet} (nonempty : voters.size ≠ 0)
    (won : voteResult voters votes = .won) :
    voters.toList.toFinset.card < 2 * (voters.toList.toFinset.filter fun id => votes id = some true).card := by
  have enough := voteResult_eq_won nonempty won
  have counted := card_filter_toFinset voters.toList_nodup fun id => votes id = some true
  simp only [decide_eq_true_eq] at counted
  rw [toFinset_card_of_nodup voters.toList_nodup, IdSet.length_toList]
  unfold quorum at enough
  omega

theorem exists_common_vote {before after : IdSet} (nonempty : before.size ≠ 0) (still : after.size ≠ 0)
    (close : Changer.symdiff before after ≤ 1) {votes votes' : Nat → Option Bool}
    (won : voteResult before votes = .won) (won' : voteResult after votes' = .won) :
    ∃ id, votes id = some true ∧ votes' id = some true := by
  apply exists_common_of_majorities _ (card_lt_of_won nonempty won) (card_lt_of_won still won')
  rw [IdSet.card_sdiff, IdSet.card_sdiff]
  exact close

end Majority

theorem Changer.symdiff_self (ids : IdSet) : Changer.symdiff ids ids = 0 := by
  have none : ids.toList.countP (fun id => !ids.contains id) = 0 := by
    rw [countP_eq_zero]
    intro id mem
    simp [IdSet.mem_toList.mp mem]
  rw [Changer.symdiff, none]

theorem JointVoters.voteResult_eq_won {voters : JointVoters} {votes : Nat → Option Bool}
    (won : voters.voteResult votes = .won) :
    Majority.voteResult voters.incoming votes = .won ∧ Majority.voteResult voters.outgoing votes = .won := by
  simp only [voteResult] at won
  split at won
  next same =>
    exact ⟨won, same.symm.trans won⟩
  · split at won <;> cases won

namespace JointChanger

variable {changer : JointChanger} {tracker changed : JointTracker} {votes votes' : Nat → Option Bool}

/-- `CommittedIndex` is the largest index that a majority of each half with voters has acknowledged, and the votes that
win before a change of a configuration with voters share one with those that win after it. -/
theorem quorum_commit :
    (∀ (voters : JointVoters) (ackedIndex : Nat → Option UInt64),
      let acked := fun id => (ackedIndex id).map UInt64.toNat
      IsGreatest { index | index < 2 ^ 64 ∧ voters.Acknowledged acked index } (voters.committedIndex acked)) ∧
    ∀ (changer : JointChanger) (operation : ConfChangeOperation) (tracker changed : JointTracker),
      tracker.config.voters.incoming.size ≠ 0 → changer.operate tracker operation = .ok changed →
      ∀ votes votes' : Nat → Option Bool, tracker.config.voters.voteResult votes = .won →
        changed.config.voters.voteResult votes' = .won → ∃ id, votes id = some true ∧ votes' id = some true := by
  constructor
  · intro voters ackedIndex acked
    apply JointVoters.committedIndex_isGreatest
    intro id index reported
    obtain ⟨word, -, rfl⟩ := map_eq_some_iff.mp reported
    exact word.toNat_lt
  · intro changer operation tracker changed nonempty done votes votes' won won'
    have first := (JointVoters.voteResult_eq_won won).1
    have second := JointVoters.voteResult_eq_won won'
    have unchanged (voters : IdSet) : (Changer.symdiff voters voters) ≤ 1 := by
      rw [Changer.symdiff_self]
      exact Nat.zero_le 1
    cases operation with
    | simple changes =>
      obtain ⟨-, -, remaining, close, -, -⟩ := simple_eq_ok.mp done
      exact exists_common_vote nonempty remaining close first second.1
    | enterJoint autoLeave changes =>
      obtain ⟨-, -, -, -, -, rfl⟩ := enterJoint_eq_ok.mp done
      have outgoing := second.2
      rw [withAutoLeave, (keepsOutgoing_foldl _ changes).outgoing] at outgoing
      exact exists_common_vote nonempty nonempty (unchanged _) first outgoing
    | leaveJoint =>
      obtain ⟨-, -, -, rfl⟩ := leaveJoint_eq_ok.mp done
      exact exists_common_vote nonempty nonempty (unchanged _) first second.1

/-- Node 3 is added to nodes 1 and 2. -/
theorem quorum_commit_third :
    let changer : JointChanger := ⟨1, 256, 0⟩
    let two := changer.makeVoter (changer.makeVoter .empty 1) 2
    changer.operate two (.simple [⟨.addNode, 3⟩]) = .ok (changer.makeVoter two 3) ∧
      ∃ id, (id = 1 ∨ id = 2) ∧ (id = 2 ∨ id = 3) := by
  intro changer two
  have done : changer.operate two (.simple [⟨.addNode, 3⟩]) = .ok (changer.makeVoter two 3) := rfl
  obtain ⟨id, first, second⟩ := quorum_commit.2 changer _ two _ (by decide) done
    (fun id => if id = 1 ∨ id = 2 then some true else none) (fun id => if id = 2 ∨ id = 3 then some true else none)
    (by decide) (by decide)
  simp only [ite_none_right_eq_some] at first second
  exact ⟨done, id, first.1, second.1⟩

/-- No vote is needed to win in the empty configuration, so it shares none with that of its first voter. -/
theorem winning_votes_apart_empty :
    let changer : JointChanger := ⟨1, 256, 0⟩
    ∃ changed, changer.operate .empty (.simple [⟨.addNode, 1⟩]) = .ok changed ∧
      JointTracker.empty.config.voters.voteResult (fun _ => none) = .won ∧
      changed.config.voters.voteResult (fun id => if id = 1 then some true else none) = .won ∧
      ¬ ∃ id, (fun _ : Nat => (none : Option Bool)) id = some true ∧
        (fun id : Nat => if id = 1 then some true else none) id = some true := by
  refine ⟨_, rfl, by decide, by decide, ?_⟩
  rintro ⟨id, absent, -⟩
  cases absent

end JointChanger

end RocksGraph.Eraft
