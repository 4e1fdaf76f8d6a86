import RocksGraph.Raft.PlainLog

/-! Committed entries are handed out once, in their order.

The position of a run is the last index that was handed out, as an entry or as
the index of a snapshot. Every ready continues it: committed entries follow it
without a gap, and a snapshot moves it ahead. -/

set_option autoImplicit false

namespace RocksGraph.Eraft

open Foundation List Option SnapshotLog LogNode

/-- Readies that hand out what follows `start`, up to the given position. -/
inductive HandedOut (start : Nat) : List LogReady → Nat → Prop where
  | nil : HandedOut start [] start
  | entries {readies : List LogReady} {position : Nat} {ready : LogReady} :
      HandedOut start readies position → ready.snapshot = none →
      Consecutive (position + 1) ready.committedEntries →
      HandedOut start (readies ++ [ready]) (position + ready.committedEntries.length)
  | snapshot {readies : List LogReady} {position : Nat} {ready : LogReady} {snapshot : SnapshotMeta} :
      HandedOut start readies position → ready.snapshot = some snapshot → ready.committedEntries = [] →
      position < snapshot.index → HandedOut start (readies ++ [ready]) snapshot.index

variable {start : Nat} {readies : List LogReady} {position : Nat}

theorem HandedOut.consecutive
    (handed : HandedOut start readies position) (noSnapshot : ∀ ready ∈ readies, ready.snapshot = none) :
    Consecutive (start + 1) (readies.flatMap LogReady.committedEntries) ∧
      position = start + (readies.flatMap LogReady.committedEntries).length := by
  induction handed with
  | nil => exact ⟨Consecutive.nil, rfl⟩
  | @entries readies position ready _ _ consecutive ih =>
    obtain ⟨before, isPosition⟩ := ih fun other mem => noSnapshot other (mem_append_left _ mem)
    rw [flatMap_append, flatMap_singleton, length_append]
    refine ⟨before.append ?_, by omega⟩
    rwa [show start + 1 + (readies.flatMap LogReady.committedEntries).length = position + 1 by omega]
  | @snapshot readies position ready snapshot _ isSnapshot =>
    have := noSnapshot ready (by simp)
    rw [isSnapshot] at this
    cases this

theorem HandedOut.start_le
    (handed : HandedOut start readies position) : start ≤ position := by
  induction handed with
  | nil => exact le_rfl
  | entries _ _ _ ih => exact Nat.le_add_right_of_le ih
  | snapshot _ _ _ ahead ih => exact le_of_lt (lt_of_le_of_lt ih ahead)

theorem HandedOut.increasing
    (handed : HandedOut start readies position) :
    (readies.flatMap LogReady.committedEntries).Pairwise (fun earlier later => earlier.index < later.index) ∧
      ∀ entry ∈ readies.flatMap LogReady.committedEntries, start < entry.index ∧ entry.index ≤ position := by
  induction handed with
  | nil => exact ⟨.nil, fun entry mem => nomatch mem⟩
  | @entries readies position ready before _ consecutive ih =>
    have start_le := before.start_le
    obtain ⟨ordered, bounded⟩ := ih
    rw [flatMap_append, flatMap_singleton]
    refine ⟨pairwise_append.mpr ⟨ordered, consecutive.increasing, ?_⟩, ?_⟩
    · intro earlier inBefore later inReady
      have := (bounded earlier inBefore).2
      have := (consecutive.bounds inReady).1
      omega
    · intro entry mem
      rcases mem_append.mp mem with inBefore | inReady
      · have := bounded entry inBefore
        omega
      · have := consecutive.bounds inReady
        omega
  | @snapshot readies position ready snapshot _ _ empty ahead ih =>
    obtain ⟨ordered, bounded⟩ := ih
    rw [flatMap_append, flatMap_singleton, empty, append_nil]
    exact ⟨ordered, fun entry mem => ⟨(bounded entry mem).1, by have := (bounded entry mem).2; omega⟩⟩

namespace LogNode

variable {history : History} {node next : LogNode} {sizes : Sizes}

variable {entries : List Entry}

theorem Sound.nextCommittedEnts (sound : Sound history node) {allowUnstable : Bool}
    (done : node.log.nextCommittedEnts sizes allowUnstable = some entries) :
    (entries ≠ [] → node.log.snapshot = none) ∧
      Consecutive (node.log.base.applying + 1) entries := by
  have nothing (emptied : some [] = some entries) : (entries ≠ [] → node.log.snapshot = none) ∧
      Consecutive (node.log.base.applying + 1) entries := by
    cases emptied
    exact ⟨absurd rfl, Consecutive.nil⟩
  unfold SnapshotLog.nextCommittedEnts at done
  split at done
  · exact nothing done
  split at done
  · exact nothing done
  rename_i noSnapshot
  split at done
  · exact nothing done
  split at done
  · cases done
  obtain ⟨found, read, done⟩ := bind_eq_some_iff.mp done
  cases found with
  | error => cases done
  | ok found =>
    cases done
    rw [sound.reads.slice_eq sound.shaped] at read
    obtain ⟨above, initial⟩ := sound.shaped.slice read
    refine ⟨fun _ => not_isSome_iff_eq_none.mp noSnapshot, ?_⟩
    exact (sound.shaped.range_consecutive above).initial initial

structure Behind (position : Nat) (node : LogNode) : Prop where
  applied_le : node.log.base.applied ≤ node.log.base.applying
  applying_le : node.log.base.applying ≤ position
  committed_ge : position ≤ node.log.base.committed
  waiting : ∀ snapshot, node.log.nextSnapshot = some snapshot → position < snapshot.index
  accepted : ∀ snapshot, node.log.snapshot = some snapshot → node.log.nextSnapshot = none →
    position = snapshot.index
  tasks : ∀ task ∈ node.tasks, ∀ snapshot, task.snapshot = some snapshot → snapshot.index ≤ position
  applies : ∀ entries ∈ node.applies, ∀ last, entries.getLast? = some last →
    last.index ≤ node.log.base.applying

/-- Where the positions of a node are when `position` was handed out: while no
snapshot waits, all of it is being applied. -/
structure Placed (position : Nat) (node : LogNode) : Prop extends Behind position node where
  idle : node.log.snapshot = none → node.log.base.applying = position

variable {position : Nat}

section

variable (placed : Placed position node)
include placed

theorem Placed.of_same (snapshot : next.log.snapshot = node.log.snapshot)
    (nextSnapshot : next.log.nextSnapshot = node.log.nextSnapshot)
    (applied : next.log.base.applied = node.log.base.applied)
    (applying : next.log.base.applying = node.log.base.applying)
    (committed : node.log.base.committed ≤ next.log.base.committed) (tasks : next.tasks = node.tasks)
    (applies : next.applies = node.applies) : Placed position next := by
  refine ⟨⟨?_, applying ▸ placed.applying_le, le_trans placed.committed_ge committed, ?_, ?_, ?_, ?_⟩, ?_⟩
  · rw [applied, applying]
    exact placed.applied_le
  · rw [nextSnapshot]
    exact placed.waiting
  · rw [snapshot, nextSnapshot]
    exact placed.accepted
  · rw [tasks]
    exact placed.tasks
  · rw [applies, applying]
    exact placed.applies
  · rw [snapshot, applying]
    exact placed.idle

variable {log : SnapshotLog}

theorem Placed.commitTo {tocommit : Nat}
    (done : node.log.commitTo tocommit = some log) : Placed position { node with log } := by
  rw [commitTo_frame done]
  exact placed.of_same rfl rfl rfl rfl (le_max_left _ _) rfl rfl

theorem Placed.append
    (done : node.log.append entries = some log) : Placed position { node with log } := by
  obtain ⟨snapshot, inProgress, frame⟩ := append_frame done
  refine placed.of_same snapshot ?_ (by rw [frame]) (by rw [frame])
    (le_of_eq (by rw [frame])) rfl rfl
  unfold nextSnapshot
  rw [snapshot, inProgress]

theorem Placed.maybeAppend {index logTerm commit : Nat}
    {lastNew : Option Nat}
    (done : node.log.maybeAppend index logTerm commit entries = some (log, lastNew)) :
    Placed position { node with log } := by
  rcases maybeAppend_cases done with ⟨rfl, -⟩ | ⟨middle, -, appended, advanced⟩
  · exact placed
  have middlePlaced : Placed position { node with log := middle } := by
    unfold appendNew at appended
    simp only at appended
    split at appended
    · cases appended
      exact placed
    · split at appended
      · cases appended
      split at appended
      · cases appended
      · exact placed.append appended
  exact middlePlaced.commitTo advanced

theorem Placed.restoreLog {snapshot : SnapshotMeta}
    (ahead : node.log.base.committed < snapshot.index) :
    Placed position { node with log := node.log.restore snapshot } := by
  have below := placed.committed_ge
  refine ⟨⟨placed.applied_le, placed.applying_le, ?_, ?_, ?_, placed.tasks, placed.applies⟩, ?_⟩
  · simp only [SnapshotLog.restore]
    omega
  · rintro pending isPending
    obtain rfl := some.inj isPending
    omega
  · intro pending isPending none
    cases none
  · intro none
    cases none

theorem Placed.step {input : LogInput}
    (done : node.step input = some next) : Placed position next := by
  cases step_cases done with
  | unchanged => exact placed
  | newTerm => exact placed.of_same rfl rfl rfl rfl (le_rfl) rfl rfl
  | appends added => exact placed.append added
  | accepts added => exact placed.maybeAppend added
  | commits _ advanced => exact placed.commitTo advanced
  | restores ahead => exact placed.restoreLog ahead

theorem Placed.write (done : node.writeNext = some next) : Placed position next := by
  obtain ⟨_, _, -, tasks, -, rfl⟩ := writeNext_cases done
  exact placed.of_same rfl rfl rfl rfl (le_rfl) tasks rfl

/-- Where a ready leaves a node: what it has taken and what is pending is handed out. -/
theorem Placed.of_accepted {ready : LogReady} {later : Nat} (accepted : Accepted sizes node ready next)
    (ahead : position ≤ later) (inLog : later ≤ node.log.base.committed)
    (taken : ∀ snapshot, ready.snapshot = some snapshot → snapshot.index ≤ later)
    (pending : ∀ snapshot, node.log.snapshot = some snapshot → later = snapshot.index)
    (applied : next.log.base.applied ≤ next.log.base.applying) (applying : next.log.base.applying ≤ later)
    (applies : ∀ entries ∈ next.applies, ∀ last, entries.getLast? = some last →
      last.index ≤ next.log.base.applying)
    (idle : node.log.snapshot = none → next.log.base.applying = later) : Placed later next := by
  obtain ⟨snapshot, inProgress, -, -, committed⟩ := accepted.log_same
  have sameSnapshot : next.log.snapshot = node.log.snapshot := snapshot
  have noNext : next.log.nextSnapshot = none := by
    rw [← acceptInProgress_nextSnapshot node.log]
    unfold nextSnapshot
    rw [snapshot, inProgress]
  refine ⟨⟨applied, applying, committed ▸ inLog, ?_, ?_, ?_, applies⟩, sameSnapshot ▸ idle⟩
  · rw [noNext]
    simp
  · rw [sameSnapshot]
    exact fun found isFound _ => pending found isFound
  · intro task mem found isFound
    obtain ⟨queued, isTask, queue⟩ := accepted.task
    have answers : next.answers = node.answers := by rw [accepted.frame]
    rw [tasks, answers, queue, ← append_assoc] at mem
    rcases mem_append.mp mem with old | new
    · exact (placed.tasks task old found isFound).trans ahead
    rw [mem_toList] at new
    rcases appendTask_cases isTask with ⟨rfl, -⟩ | ⟨_, rfl, -, same, -⟩
    · cases new
    · cases new
      exact taken found (same ▸ isFound)

theorem Placed.accepted_ready (sound : Sound history node)
    {ready : LogReady} (accepted : Accepted sizes node ready next)
    (handed : HandedOut start readies position) :
    ∃ later, HandedOut start (readies ++ [ready]) later ∧ Placed later next := by
  obtain ⟨onlyWithout, consecutive⟩ := sound.nextCommittedEnts accepted.committed
  have applies : next.applies = node.applies ++
      if ready.committedEntries = [] then [] else [ready.committedEntries] := by rw [accepted.frame]
  have applied_le := placed.applied_le
  have applying_le := placed.applying_le
  have committed_ge := placed.committed_ge
  rcases accepted.log with ⟨empty, same⟩ | ⟨last, isLast, moved⟩
  · rw [if_pos empty, append_nil] at applies
    have applied : next.log.base.applied = node.log.base.applied := by rw [same]; rfl
    have applying : next.log.base.applying = node.log.base.applying := by rw [same]; rfl
    have kept := placed.applies
    rw [← applies, ← applying] at kept
    cases isNext : node.log.nextSnapshot with
    | none =>
      have noSnapshot : ready.snapshot = none := accepted.snapshot.trans isNext
      have continued := handed.entries noSnapshot (empty ▸ Consecutive.nil)
      rw [empty] at continued
      exact ⟨position, continued, placed.of_accepted accepted le_rfl committed_ge (by simp [noSnapshot])
        (fun current isCurrent => placed.accepted current isCurrent isNext) (by omega) (by omega) kept
        (applying ▸ placed.idle)⟩
    | some waiting =>
      have isSnapshot : ready.snapshot = some waiting := accepted.snapshot.trans isNext
      have isPending := nextSnapshot_eq isNext
      have ahead := placed.waiting waiting isNext
      have inLog : waiting.index ≤ node.log.base.committed := (sound.pending waiting isPending).1 ▸ sound.kept
      exact ⟨waiting.index, handed.snapshot isSnapshot empty ahead, placed.of_accepted accepted (by omega) inLog
        (by simp [isSnapshot]) (by simp [isPending]) (by omega) (by omega) kept (by simp [isPending])⟩
  · -- entries are handed out only when no snapshot is pending
    have filled : ready.committedEntries ≠ [] := by
      intro empty
      rw [empty] at isLast
      cases isLast
    have noPending := onlyWithout filled
    have isPosition := placed.idle noPending
    have noSnapshot : ready.snapshot = none := by
      rw [accepted.snapshot]
      unfold nextSnapshot
      rw [noPending, ite_self]
    have lastIndex := consecutive.getLast_index isLast
    unfold acceptApplying at moved
    split at moved
    · cases moved
    next inLog =>
      have log := some.inj moved
      have applied : next.log.base.applied = node.log.base.applied := by rw [← log]; rfl
      have applying : next.log.base.applying = last.index := by rw [← log]
      have inLog : last.index ≤ node.log.base.committed := le_of_not_gt inLog
      refine ⟨_, handed.entries noSnapshot (isPosition ▸ consecutive), placed.of_accepted accepted (by omega)
        (by omega) (by simp [noSnapshot]) (by simp [noPending]) (by omega) (by omega) ?_ fun _ => by omega⟩
      rw [applies, if_neg filled, applying]
      refine forall_mem_snoc (fun entries earlier final isFinal => ?_) fun final isFinal => ?_
      · have := placed.applies entries earlier final isFinal
        omega
      · rw [isLast] at isFinal
        rw [some.inj isFinal]

end

theorem Behind.appliedTo (behind : Behind position node) {index size : Nat} (le : index ≤ position)
    (idle : node.log.snapshot = none → index = position ∨ node.log.base.applying = position)
    (done : node.appliedTo index size = some next) : Placed position next := by
  have applied_le := behind.applied_le
  have applying_le := behind.applying_le
  unfold LogNode.appliedTo SnapshotLog.appliedTo RaftLog.appliedTo at done
  obtain ⟨log, moved, rfl⟩ := map_eq_some_iff.mp done
  split at moved
  · cases moved
  cases moved
  refine ⟨⟨?_, ?_, behind.committed_ge, behind.waiting, behind.accepted, behind.tasks, ?_⟩, fun none => ?_⟩
  · simp only
    omega
  · simp only
    omega
  · intro entries mem last isLast
    have := behind.applies entries mem last isLast
    simp only
    omega
  · have := idle none
    simp only
    omega

theorem Placed.answerApply (placed : Placed position node) (done : node.answerApply sizes = some next) :
    Placed position next := by
  unfold LogNode.answerApply at done
  cases isApplies : node.applies with
  | nil =>
    rw [isApplies] at done
    cases done
  | cons entries applies =>
    rw [isApplies] at done
    have popped : Placed position { node with applies } := by
      refine ⟨⟨placed.applied_le, placed.applying_le, placed.committed_ge, placed.waiting,
        placed.accepted, placed.tasks, fun others mem => placed.applies others ?_⟩, placed.idle⟩
      rw [isApplies]
      exact .tail _ mem
    simp only [LogNode.stepApplyResp] at done
    split at done
    next last isLast =>
      have handedOut := placed.applies entries (isApplies ▸ .head _) last isLast
      exact popped.appliedTo (le_trans handedOut placed.applying_le) (fun none => .inr (placed.idle none)) done
    · obtain rfl := some.inj done
      exact popped

theorem Placed.answerAppend (placed : Placed position node) (sound : Sound history node)
    (done : node.answerAppend = some next) : Placed position next := by
  obtain ⟨task, rest, log, isAnswers, tail, outcome⟩ := sound.answerAppend_cases done
  have inTasks : task ∈ node.tasks := mem_append_left _ (isAnswers ▸ .head _)
  have behind : Behind position { node with log, answers := rest } := by
    refine ⟨?_, ?_, ?_, ?_, ?_, fun other mem => placed.tasks other ?_, ?_⟩
    · simp only [tail.applied, tail.applying]
      exact placed.applied_le
    · simp only [tail.applying]
      exact placed.applying_le
    · simp only [tail.committed]
      exact placed.committed_ge
    · simp only [tail.nextSnapshot]
      exact placed.waiting
    · simp only [tail.nextSnapshot]
      rcases tail.snapshot with ⟨same, -, -⟩ | ⟨none, -, -⟩
      · rw [same]
        exact placed.accepted
      · rw [none]
        simp
    · unfold tasks at mem ⊢
      rw [isAnswers]
      exact .tail _ mem
    · simp only [tail.applying]
      exact placed.applies
  rcases outcome with ⟨noSnapshot, rfl⟩ | ⟨snapshot, isSnapshot, applied⟩
  · refine ⟨behind, fun none => ?_⟩
    simp only [tail.applying]
    rcases tail.snapshot with ⟨same, -, -⟩ | ⟨-, holds, -⟩
    · exact placed.idle (same ▸ none)
    · exact placed.idle (holds ▸ noSnapshot)
  · refine behind.appliedTo (placed.tasks task inTasks snapshot isSnapshot) (fun none => ?_) applied
    rcases tail.snapshot with ⟨same, -, -⟩ | ⟨-, holds, accepted⟩
    · exact .inr (tail.applying.trans (placed.idle (same ▸ none)))
    · exact .inl (placed.accepted snapshot (holds ▸ isSnapshot) accepted).symm

theorem Fresh.placed {storage : LogStore} (fresh : Fresh storage node) :
    Placed node.log.base.applied node := by
  have noNext : node.log.nextSnapshot = none := by
    unfold nextSnapshot
    rw [fresh.snapshot, ite_self]
  refine ⟨⟨fresh.applied, le_of_eq fresh.applying, ?_, ?_, ?_, ?_, ?_⟩, fun _ => fresh.applying⟩
  · exact le_trans fresh.applied fresh.committed
  · rw [noNext]
    simp
  · rw [fresh.snapshot]
    simp
  · unfold tasks
    rw [fresh.answers, fresh.queue]
    simp
  · rw [fresh.applies]
    simp

theorem Started.placed (started : Started history node) : Placed node.log.base.applied node := by
  cases started with
  | created stored done => exact (new_fresh done).placed
  | @bootstrapped storage _ _ _ before _ peers stored done led peersDone =>
    have fresh := new_fresh done
    unfold bootstrap at peersDone
    split at peersDone
    · cases peersDone
      exact fresh.placed
    next allowed =>
      obtain ⟨log, appended, peersDone⟩ := bind_eq_some_iff.mp peersDone
      cases peersDone
      obtain ⟨-, -, frame⟩ := append_frame appended
      have applied : log.base.applied = before.log.base.applied := by rw [frame]
      have committed : log.base.committed = before.log.base.committed := by rw [frame]
      have bounded := fresh.committed_le
      rw [fresh.stored] at allowed
      simp only [applied]
      refine (fresh.placed.append appended).of_same rfl rfl applied.symm rfl ?_ rfl rfl
      simp only
      omega

end LogNode

namespace LogRun

open LogNode

variable {history : History} {sizes : Sizes}

def Continues (start : Nat) (run : LogRun) : Prop :=
  ∃ position, HandedOut start run.readies position ∧ Placed position run.node

theorem Continues.event {run next : LogRun} (continues : run.Continues start)
    (sound : Sound history run.node) {event : LogEvent} (taken : run.next sizes event = some next) :
    next.Continues start := by
  obtain ⟨position, handed, placed⟩ := continues
  obtain ⟨⟨node, ready⟩, done, rfl⟩ := map_eq_some_iff.mp taken
  have unchanged {node : LogNode} (placed : Placed position node) :
      (⟨node, run.readies ++ (none : Option LogReady).toList⟩ : LogRun).Continues start := by
    refine ⟨position, ?_, placed⟩
    simpa using handed
  apply next_cases (motive := fun result ready => (⟨result, run.readies ++ ready.toList⟩ : LogRun).Continues start) done
  · exact fun input result _ stepped => unchanged (placed.step stepped)
  · exact fun result handedReady accepted => placed.accepted_ready sound accepted handed
  · exact fun result written => unchanged (placed.write written)
  · intro middle either
    have first : Placed position middle := by
      rcases either with rfl | answered
      · exact placed
      · exact placed.answerAppend sound answered
    exact ⟨unchanged first, fun result answered => unchanged (first.answerApply answered)⟩

/-- In every run the readies hand out, after the index applied at the start, entries
and snapshots that continue one another: entries follow what was handed out last
without a gap, and a snapshot jumps ahead. Entries are never handed out again, and
without a snapshot they are one run of indexes. The positions stay in order. -/
theorem handedOut_of_reaches {node : LogNode} (started : Started history node) {events : List LogEvent}
    {run : LogRun} (reaches : Reaches history sizes node events run) :
    (∃ position, HandedOut node.log.base.applied run.readies position) ∧
      (run.readies.flatMap LogReady.committedEntries).Pairwise
        (fun earlier later => earlier.index < later.index) ∧
      ((∀ ready ∈ run.readies, ready.snapshot = none) →
        Consecutive (node.log.base.applied + 1) (run.readies.flatMap LogReady.committedEntries)) ∧
      run.node.log.base.applied ≤ run.node.log.base.applying ∧
      run.node.log.base.applying ≤ run.node.log.base.committed ∧
      run.node.log.base.committed ≤ run.node.log.lastIndex := by
  have both : Sound history run.node ∧ run.Continues node.log.base.applied := by
    refine Runs.invariant reaches (fun run => Sound history run.node ∧ run.Continues node.log.base.applied)
      ⟨started.sound, _, .nil, started.placed⟩ ?_
    rintro run event next ⟨sound, continues⟩ lawful taken
    refine ⟨?_, continues.event sound taken⟩
    obtain ⟨⟨result, ready⟩, done, rfl⟩ := map_eq_some_iff.mp taken
    exact sound.event lawful done
  obtain ⟨sound, position, handed, placed⟩ := both
  refine ⟨⟨position, handed⟩, handed.increasing.1, fun noSnapshot => (handed.consecutive noSnapshot).1,
    placed.applied_le, le_trans placed.applying_le placed.committed_ge, ?_⟩
  rw [sound.lastIndex_eq]
  exact sound.committed_le

def restoresBetween : List LogEvent :=
  [.step (.newTerm 1), .step (.handleAppendEntries 0 0 1 [replicatedEntry 1]), .ready, .write, .advance,
    .step (.restore ⟨5, 1⟩), .ready, .write, .advance, .step (.handleAppendEntries 5 1 6 [replicatedEntry 6]), .ready]

theorem exists_restores : ∃ node run, emptyReplica false = some node ∧
    execute (next unitSizes) (Lawful firstLeader) ⟨node, []⟩ restoresBetween = some run := ⟨_, _, rfl, rfl⟩

theorem handedOut_of_reaches_restores : ∃ node run, LogNode.Started firstLeader node ∧
    Reaches firstLeader unitSizes node restoresBetween run ∧
    (∃ position, HandedOut node.log.base.applied run.readies position) ∧
    run.readies.map LogReady.committedEntries = [[replicatedEntry 1], [], [replicatedEntry 6]] := by
  obtain ⟨node, run, isNode, isRun⟩ := exists_restores
  have started : LogNode.Started firstLeader node := .created (storeOk_created _) isNode
  have reaches : Reaches firstLeader unitSizes node restoresBetween run := runs_of_execute isRun
  refine ⟨node, run, started, reaches, (handedOut_of_reaches started reaches).1, ?_⟩
  cases isNode
  cases isRun
  rfl

/-- Across a snapshot the entries that are handed out are not one run of indexes. -/
theorem gap_across_restore : ∃ node run, LogNode.Started firstLeader node ∧
    Reaches firstLeader unitSizes node restoresBetween run ∧
    ¬ Consecutive (node.log.base.applied + 1) (run.readies.flatMap LogReady.committedEntries) := by
  obtain ⟨node, run, isNode, isRun⟩ := exists_restores
  refine ⟨node, run, .created (storeOk_created _) isNode, runs_of_execute isRun, fun consecutive => ?_⟩
  have second := consecutive 1 (replicatedEntry 6) (by
    cases isNode
    cases isRun
    rfl)
  cases isNode
  cases second

end LogRun

end RocksGraph.Eraft
