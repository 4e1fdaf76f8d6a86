import RocksGraph.Raft.LogReady

/-! Answers of the storage keep a node sound. -/

set_option autoImplicit false

namespace RocksGraph.Eraft.LogNode

open List Option LogNode

variable {history : History} {node next : LogNode} {task : AppendTask} {rest : List AppendTask}

structure TailAfter (node : LogNode) (task : AppendTask) (rest : List AppendTask) (log : SnapshotLog) :
    Prop where
  storage : log.base.storage = node.log.base.storage
  committed : log.base.committed = node.log.base.committed
  applied : log.base.applied = node.log.base.applied
  applying : log.base.applying = node.log.base.applying
  unstable : log.base.unstable = node.log.base.unstable ∨
    (node.Attests [] task (rest ++ node.queue) ∧ node.log.base.unstable.offset ≤ task.index ∧
      log.snapshot = none ∧ log.base.unstable = (node.view.dropUnstable task.index).unstable)
  snapshot : (log.snapshot = node.log.snapshot ∧
      log.snapshotInProgress = node.log.snapshotInProgress ∧
      (node.log.snapshot = none ∨ task.snapshot ≠ node.log.snapshot)) ∨
    (log.snapshot = none ∧ task.snapshot = node.log.snapshot ∧ node.log.nextSnapshot = none)

variable {log : SnapshotLog} {sizes : Sizes}

theorem TailAfter.nextSnapshot (tail : TailAfter node task rest log) :
    log.nextSnapshot = node.log.nextSnapshot := by
  rcases tail.snapshot with ⟨snapshot, inProgress, -⟩ | ⟨none, -, accepted⟩
  · unfold SnapshotLog.nextSnapshot
    rw [snapshot, inProgress]
  · rw [accepted]
    unfold SnapshotLog.nextSnapshot
    rw [none, ite_self]

theorem TailAfter.entries (tail : TailAfter node task rest log) (shaped : node.view.Shaped) :
    (log.onto node.eventual).Shaped ∧
      (∀ index, (log.onto node.eventual).term index = node.view.term index) ∧
      (log.onto node.eventual).suffix = node.view.suffix ∧
      node.log.base.unstable.offset ≤ log.base.unstable.offset ∧
      node.log.base.unstable.offsetInProgress ≤ log.base.unstable.offsetInProgress := by
  rcases tail.unstable with same | ⟨attests, above, -, dropped⟩
  · have storage : (log.onto node.eventual).storage = node.view.storage := rfl
    have unstable : (log.onto node.eventual).unstable = node.view.unstable := same
    refine ⟨shaped.congr storage unstable, RaftLog.term_congr storage unstable, ?_, by rw [same], by rw [same]⟩
    unfold RaftLog.suffix
    rw [storage, unstable]
  · obtain ⟨shaped', suffix⟩ := shaped.dropUnstable above attests.accepted
    have storage : (log.onto node.eventual).storage = (node.view.dropUnstable task.index).storage := rfl
    have unstable : (log.onto node.eventual).unstable = (node.view.dropUnstable task.index).unstable := dropped
    refine ⟨shaped'.congr storage unstable, fun index => ?_, ?_, ?_, ?_⟩
    · rw [RaftLog.term_congr storage unstable]
      exact shaped.term_of_suffix shaped' suffix rfl rfl index
    · rw [← suffix]
      unfold RaftLog.suffix
      rw [storage, unstable]
    · rw [dropped]
      exact Nat.le_succ_of_le above
    · rw [dropped]
      exact le_max_left _ _

section

variable (sound : Sound history node)
include sound

section

variable (isAnswers : node.answers = task :: rest)
include isAnswers

theorem Sound.answered
    (tail : TailAfter node task rest log) :
    Sound history { node with log, answers := rest } := by
  have tasks : node.tasks = task :: (rest ++ node.queue) := by
    unfold tasks
    rw [isAnswers, cons_append]
  generalize isNext : ({ node with log, answers := rest } : LogNode) = next
  have nextTasks : next.tasks = rest ++ node.queue := by rw [← isNext]; rfl
  have term : next.term = node.term := by rw [← isNext]
  have nextLog : next.log = log := by rw [← isNext]
  have eventual : next.eventual = node.eventual := by
    unfold eventual
    rw [nextLog, tail.nextSnapshot, tail.storage, ← isNext]
  have view : next.view = log.onto node.eventual := by
    unfold LogNode.view
    rw [eventual, nextLog]
  obtain ⟨shaped, sameTerm, suffix, offset, progress⟩ := tail.entries sound.shaped
  rw [← view] at shaped sameTerm suffix
  have last : next.view.lastIndex = node.view.lastIndex := by
    rw [shaped.lastIndex_eq, sound.shaped.lastIndex_eq, suffix, view]
    rfl
  have later (other : AppendTask) (mem : other ∈ rest ++ node.queue) : other ∈ node.tasks :=
    tasks ▸ mem_cons_of_mem _ mem
  have stays {pending : SnapshotMeta} (isPending : log.snapshot = some pending) :
      node.log.snapshot = some pending ∧ task.snapshot ≠ node.log.snapshot := by
    rcases tail.snapshot with ⟨snapshot, -, kept⟩ | ⟨none, -, -⟩
    · rw [snapshot] at isPending
      exact ⟨isPending, kept.resolve_left (by simp [isPending])⟩
    · rw [none] at isPending
      cases isPending
  -- a pending snapshot that is gone was held by the task
  have settledBefore (before : List AppendTask) (settled : next.Settled before) :
      node.Settled (task :: before) := by
    rcases tail.snapshot with ⟨snapshot, -, -⟩ | ⟨none, holds, -⟩
    · rw [Settled, nextLog, snapshot] at settled
      exact settled.imp_right fun ⟨holder, mem, isHolder⟩ => ⟨holder, .tail _ mem, isHolder⟩
    · exact .inr ⟨task, .head _, holds⟩
  have settledAfter (before : List AppendTask) (settled : node.Settled (task :: before)) :
      next.Settled before := by
    unfold Settled
    rw [nextLog]
    rcases tail.snapshot with ⟨snapshot, -, kept⟩ | ⟨none, -, -⟩
    · rw [snapshot]
      rcases settled with none | ⟨holder, mem, holds⟩
      · exact .inl none
      rcases mem_cons.mp mem with rfl | mem
      · exact kept.imp_right fun differs => absurd holds differs
      · exact .inr ⟨holder, mem, holds⟩
    · exact .inl none
  refine ⟨shaped, ?_, ?_, ?_, ?_, ?_, ?_, ?_, ?_⟩
  · rw [nextLog, tail.storage, ← isNext]
    exact sound.writable
  · rw [nextLog, eventual]
    intro pending isPending
    rcases tail.unstable with same | ⟨-, -, none, -⟩
    · rw [same]
      exact sound.pending pending (stays isPending).1
    · rw [none] at isPending
      cases isPending
  · obtain ⟨ordered, absent, waiting, accepted, latest, bounded⟩ := sound.snapshots
    rw [tasks] at ordered
    have held (pending : SnapshotMeta) (isPending : node.log.snapshot = some pending)
        (isNone : node.log.nextSnapshot = none) (notTask : task.snapshot ≠ node.log.snapshot) :
        ∃ holder ∈ rest ++ node.queue, holder.snapshot = some pending := by
      obtain ⟨holder, mem, holds⟩ := accepted pending isPending isNone
      rw [tasks] at mem
      rcases mem_cons.mp mem with rfl | mem
      · exact absurd (holds.trans isPending.symm) notTask
      · exact ⟨holder, mem, holds⟩
    constructor <;> rw [nextTasks] <;> try rw [nextLog]
    · exact (pairwise_cons.mp ordered).2
    · intro none other mem
      rcases tail.snapshot with ⟨snapshot, -, -⟩ | ⟨-, holds, isNone⟩
      · exact absent (snapshot ▸ none) other (later other mem)
      -- the snapshot of the task was the last
      cases isOther : other.snapshot with
      | none => rfl
      | some otherSnapshot =>
        cases isPending : node.log.snapshot with
        | none => exact isOther.symm.trans (absent isPending other (later other mem))
        | some pending =>
          have before := (pairwise_cons.mp ordered).1 other mem pending otherSnapshot
            (holds.trans isPending) isOther
          have := latest pending isPending other (later other mem) otherSnapshot isOther
          omega
    · rw [tail.nextSnapshot]
      exact fun pending isPending other mem => waiting pending isPending other (later other mem)
    · rw [tail.nextSnapshot]
      intro pending isPending isNone
      exact held pending (stays isPending).1 isNone (stays isPending).2
    · exact fun pending isPending other mem => latest pending (stays isPending).1 other (later other mem)
    · rw [tail.committed]
      exact fun other mem => bounded other (later other mem)
  · intro before other after split
    rw [nextTasks] at split
    have ok := sound.tasksOk (task :: before) other after (by rw [tasks, split]; rfl)
    have mem : other ∈ rest ++ node.queue := by rw [split]; simp
    refine ⟨term ▸ ok.term_le, ok.local_term, fun index current => ?_, fun settled => ?_⟩
    · rcases ok.attested index (term ▸ current) with attests | overtaken
      · refine .inl ⟨(sameTerm _).trans attests.found, ?_, ?_, settledAfter _ attests.settled,
          last ▸ attests.later⟩
        · rw [nextLog]
          exact lt_of_lt_of_le attests.accepted progress
        · rw [nextLog, tail.nextSnapshot]
          exact attests.taken
      · refine .inr (overtaken.mono ?_ (nextLog ▸ offset) sameTerm term)
        rw [nextLog, tail.committed]
    · rw [nextLog]
      rcases tail.unstable with same | ⟨attests, above, -, dropped⟩
      · rw [same]
        exact ok.above (settledBefore _ settled)
      · -- later tasks start behind what left the tail
        refine (attests.later other mem).2.imp_right fun ⟨starts, inLog⟩ => ?_
        rw [dropped]
        refine ⟨starts, ?_⟩
        have total := sound.shaped.lastIndex_unstable
        have sameTail : node.view.unstable = node.log.base.unstable := rfl
        simp only [RaftLog.dropUnstable, ne_eq, drop_eq_nil_iff, sameTail] at total ⊢
        omega
  · intro high low highTerm lowTerm highFound lowFound
    rw [sameTerm] at highFound lowFound
    exact sound.path high low highTerm lowTerm highFound lowFound
  · rw [term, nextLog]
    intro zero
    have idle := sound.idle zero
    rcases tail.unstable with same | ⟨-, -, -, dropped⟩
    · rw [same]
      exact idle
    · rw [dropped]
      simp only [RaftLog.dropUnstable]
      rw [show node.view.unstable.entries = [] from idle, drop_nil]
  · rw [eventual, nextLog, tail.committed]
    exact sound.kept
  · rw [last, nextLog, tail.committed]
    exact sound.committed_le

theorem Sound.attests_of_found
    (index : task.index ≠ 0) (current : ¬ (task.term ≠ 0 ∧ task.term < node.term))
    (above : node.log.base.unstable.offset ≤ task.index)
    (found : node.view.term task.index = .ok task.logTerm) :
    node.Attests [] task (rest ++ node.queue) := by
  have ok := sound.tasksOk [] task (rest ++ node.queue) (by
    unfold tasks
    rw [isAnswers]
    rfl)
  have le := ok.term_le
  have sameTerm : task.term = node.term := by
    by_cases zero : task.term = 0
    · exact absurd (ok.local_term zero) index
    · omega
  rcases ok.attested index sameTerm with attests | ⟨-, below⟩ |
    ⟨entryIndex, entryTerm, positive, covered, entryFound, -, differs⟩
  · exact attests
  · omega
  · exact absurd (sound.path _ _ _ _ found entryFound positive covered).symm differs

theorem Sound.attest : ∃ unstable,
    node.attest task = { node with log := { node.log with base := { node.log.base with unstable } } } ∧
      (unstable = node.log.base.unstable ∨
        (node.Attests [] task (rest ++ node.queue) ∧ node.log.base.unstable.offset ≤ task.index ∧
          unstable = (node.view.dropUnstable task.index).unstable)) := by
  unfold LogNode.attest
  split
  · exact ⟨_, rfl, .inl rfl⟩
  rename_i current
  split
  next index =>
    simp only
    unfold SnapshotLog.stableTo
    split
    · exact ⟨_, rfl, .inl rfl⟩
    rename_i foundTerm isFound
    split
    · exact ⟨_, rfl, .inl rfl⟩
    rename_i above
    split
    · exact ⟨_, rfl, .inl rfl⟩
    rename_i same
    rw [not_not] at same
    subst same
    refine ⟨_, rfl, .inr ⟨?_, le_of_not_gt above, rfl⟩⟩
    refine sound.attests_of_found isAnswers index current (le_of_not_gt above) ?_
    rw [← sound.term_eq, SnapshotLog.term, isFound]
  · exact ⟨_, rfl, .inl rfl⟩

end

theorem Sound.appliedTo {index size : Nat}
    (done : node.appliedTo index size = some next) : Sound history next := by
  unfold LogNode.appliedTo SnapshotLog.appliedTo RaftLog.appliedTo at done
  obtain ⟨log, applied, rfl⟩ := map_eq_some_iff.mp done
  split at applied
  · cases applied
  · cases applied
    exact sound.of_same ⟨rfl, rfl, rfl, rfl, rfl, rfl⟩ rfl (le_rfl) sound.committed_le

theorem Sound.snapshot_of_index (isAnswers : node.answers = task :: rest)
    {snapshot pending : SnapshotMeta} (isSnapshot : task.snapshot = some snapshot)
    (isPending : node.log.snapshot = some pending) (sameIndex : pending.index = snapshot.index) :
    task.snapshot = node.log.snapshot ∧ node.log.nextSnapshot = none := by
  have tasks : node.tasks = task :: (rest ++ node.queue) := by
    unfold tasks
    rw [isAnswers, cons_append]
  have accepted : node.log.nextSnapshot = none := by
    cases isNext : node.log.nextSnapshot with
    | none => rfl
    | some waiting =>
      have same := (nextSnapshot_eq isNext).symm.trans isPending
      obtain rfl := some.inj same
      have := sound.snapshots.waiting _ isNext task (tasks ▸ .head _) snapshot isSnapshot
      omega
  refine ⟨?_, accepted⟩
  obtain ⟨holder, mem, holds⟩ := sound.snapshots.accepted pending isPending accepted
  rw [tasks] at mem
  rcases mem_cons.mp mem with rfl | mem
  · exact holds.trans isPending.symm
  have ordered := sound.snapshots.ordered
  rw [tasks] at ordered
  have := (pairwise_cons.mp ordered).1 holder mem snapshot pending isSnapshot holds
  omega

/-- What an answer leaves: the tail may have moved, the entries are the same, and
an applied snapshot moves the positions. -/
theorem Sound.answerAppend_cases (done : node.answerAppend = some next) :
    ∃ task rest log, node.answers = task :: rest ∧ TailAfter node task rest log ∧
      ((task.snapshot = none ∧ next = { node with log, answers := rest }) ∨
        ∃ snapshot, task.snapshot = some snapshot ∧
          ({ node with log, answers := rest } : LogNode).appliedTo snapshot.index 0 = some next) := by
  unfold LogNode.answerAppend at done
  cases isAnswers : node.answers with
  | nil =>
    rw [isAnswers] at done
    cases done
  | cons task rest =>
    rw [isAnswers] at done
    obtain ⟨unstable, attested, dropped⟩ := sound.attest isAnswers
    have popped : ({ node with answers := rest } : LogNode).attest task =
        { node.attest task with answers := rest } := by
      unfold LogNode.attest
      split
      · rfl
      · split <;> rfl
    simp only [LogNode.stepAppendResp, popped, attested] at done
    cases isSnapshot : task.snapshot with
    | none =>
      rw [isSnapshot] at done
      obtain rfl := some.inj done
      refine ⟨task, rest, { node.log with base := { node.log.base with unstable } }, rfl,
        ⟨rfl, rfl, rfl, rfl, dropped.imp_right fun ⟨attests, above, dropped⟩ => ⟨attests, above, ?_, dropped⟩,
          .inl ⟨rfl, rfl, ?_⟩⟩, .inl ⟨isSnapshot, rfl⟩⟩
      · rw [isSnapshot]
        cases pending : node.log.snapshot with
        | none => exact .inl rfl
        | some current => exact .inr nofun
      · rcases attests.settled with none | ⟨holder, mem, holds⟩
        · exact none
        · rw [mem_singleton.mp mem, isSnapshot] at holds
          exact holds.symm
    | some snapshot =>
      rw [isSnapshot] at done
      refine ⟨task, rest, _, rfl, ?_, .inr ⟨snapshot, isSnapshot, done⟩⟩
      unfold SnapshotLog.stableSnapTo
      split
      next pending isPending =>
        split
        next sameIndex =>
          obtain ⟨holds, accepted⟩ := sound.snapshot_of_index isAnswers isSnapshot isPending sameIndex
          exact ⟨rfl, rfl, rfl, rfl, dropped.imp_right fun ⟨attests, above, dropped⟩ =>
            ⟨attests, above, rfl, dropped⟩, .inr ⟨rfl, holds, accepted⟩⟩
        next otherIndex =>
          have differs : task.snapshot ≠ node.log.snapshot := by
            intro same
            cases isSnapshot.symm.trans (same.trans isPending)
            exact otherIndex rfl
          refine ⟨rfl, rfl, rfl, rfl, .inl ?_, .inl ⟨rfl, rfl, .inr differs⟩⟩
          rcases dropped with same | ⟨attests, -, -⟩
          · exact same
          rcases attests.settled with none | ⟨holder, mem, holds⟩
          · cases none.symm.trans isPending
          · rw [mem_singleton.mp mem] at holds
            exact absurd holds differs
      next none =>
        have inTasks : task ∈ node.tasks := mem_append_left _ (isAnswers ▸ .head _)
        cases isSnapshot.symm.trans (sound.snapshots.absent none task inTasks)

theorem Sound.answerAppend (done : node.answerAppend = some next) : Sound history next := by
  obtain ⟨task, rest, log, isAnswers, tail, ⟨-, rfl⟩ | ⟨snapshot, -, applied⟩⟩ := sound.answerAppend_cases done
  · exact sound.answered isAnswers tail
  · exact (sound.answered isAnswers tail).appliedTo applied

theorem Sound.answerApply (done : node.answerApply sizes = some next) : Sound history next := by
  unfold LogNode.answerApply at done
  cases isApplies : node.applies with
  | nil =>
    rw [isApplies] at done
    cases done
  | cons entries applies =>
    rw [isApplies] at done
    have popped : Sound history { node with applies } :=
      sound.of_same ⟨rfl, rfl, rfl, rfl, rfl, rfl⟩ rfl (le_rfl) sound.committed_le
    simp only [LogNode.stepApplyResp] at done
    split at done
    · exact popped.appliedTo done
    · obtain rfl := some.inj done
      exact popped

end

variable {ready : Option LogReady}

/-- What an event does: one call, or the answers of the storage, each at most once. -/
theorem next_cases {event : LogEvent}
    {motive : LogNode → Option LogReady → Prop} (done : node.next sizes event = some (next, ready))
    (step : ∀ input result, event = .step input → node.step input = some result → motive result none)
    (accept : ∀ result handed, Accepted sizes node handed result → motive result (some handed))
    (write : ∀ result, node.writeNext = some result → motive result none)
    (answers : ∀ middle, middle = node ∨ node.answerAppend = some middle →
      motive middle none ∧ ∀ result, middle.answerApply sizes = some result → motive result none) :
    motive next ready := by
  cases event with
  | step input =>
    obtain ⟨result, stepped, same⟩ := map_eq_some_iff.mp done
    cases same
    exact step input _ rfl stepped
  | ready =>
    obtain ⟨⟨result, handed⟩, accepted, same⟩ := map_eq_some_iff.mp done
    cases same
    exact accept _ handed (getReady_accepted accepted)
  | write =>
    obtain ⟨result, written, same⟩ := map_eq_some_iff.mp done
    cases same
    exact write _ written
  | appendResp =>
    obtain ⟨-, done⟩ := ite_none_right_eq_some.mp done
    obtain ⟨result, answered, same⟩ := map_eq_some_iff.mp done
    cases same
    exact (answers _ (.inr answered)).1
  | applyResp =>
    obtain ⟨-, done⟩ := ite_none_right_eq_some.mp done
    obtain ⟨result, answered, same⟩ := map_eq_some_iff.mp done
    cases same
    exact (answers node (.inl rfl)).2 _ answered
  | advance =>
    obtain ⟨-, done⟩ := ite_none_left_eq_some.mp done
    obtain ⟨result, advanced, same⟩ := map_eq_some_iff.mp done
    cases same
    obtain ⟨middle, answered, advanced⟩ := bind_eq_some_iff.mp advanced
    have either : middle = node ∨ node.answerAppend = some middle := by
      split at answered
      · exact .inl (some.inj answered).symm
      · exact .inr answered
    split at advanced
    · cases advanced
      exact (answers _ either).1
    · exact (answers middle either).2 _ advanced

theorem Sound.event (sound : Sound history node) {event : LogEvent}
    (lawful : event.Lawful history node)
    (done : node.next sizes event = some (next, ready)) : Sound history next := by
  apply next_cases (motive := fun result _ => Sound history result) done
  · rintro input result rfl stepped
    exact sound.step lawful stepped
  · exact fun result handed accepted => sound.accepted accepted
  · exact fun result written => sound.writeNext written
  · intro middle either
    have middleSound : Sound history middle := by
      rcases either with rfl | answered
      · exact sound
      · exact sound.answerAppend answered
    exact ⟨middleSound, fun result answered => middleSound.answerApply answered⟩

end RocksGraph.Eraft.LogNode
