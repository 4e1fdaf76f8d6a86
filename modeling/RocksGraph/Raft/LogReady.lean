import RocksGraph.Raft.LogSteps

/-! Readies, writes and answers keep a node sound. -/

set_option autoImplicit false

namespace RocksGraph.Eraft

open Foundation List Option SnapshotLog LogNode

namespace LogStore

variable {store : LogStore}

theorem append_frame (store : LogStore) (entries : List Entry) :
    store.append entries = { store with entries := (store.append entries).entries } := by
  unfold append
  split
  · rfl
  split
  · rfl
  · rfl

end LogStore

namespace LogNode

variable {history : History} {node next : LogNode}

def accept (node : LogNode) (task : AppendTask) : LogNode :=
  { node with log := node.log.acceptInProgress, queue := node.queue ++ [task] }

section Accept

variable {task : AppendTask} (entries : task.entries = node.log.base.nextUnstableEnts)
  (snapshot : task.snapshot = node.log.nextSnapshot)

theorem nextSnapshot_eq {pending : SnapshotMeta} (isNext : node.log.nextSnapshot = some pending) :
    node.log.snapshot = some pending := by
  unfold nextSnapshot at isNext
  split at isNext
  · cases isNext
  · exact isNext

theorem acceptInProgress_nextSnapshot (log : SnapshotLog) : log.acceptInProgress.nextSnapshot = none := by
  obtain ⟨base, snapshot, inProgress⟩ := log
  cases snapshot <;> simp [acceptInProgress, nextSnapshot]

theorem accept_nextSnapshot : (node.accept task).log.nextSnapshot = none :=
  acceptInProgress_nextSnapshot node.log

include snapshot in
theorem restoreTask_eventual :
    (node.queue.foldl LogStore.write node.log.base.storage).restoreTask task = node.eventual := by
  unfold LogStore.restoreTask eventual
  generalize task.snapshot = taken at snapshot ⊢
  subst snapshot
  rfl

include entries snapshot in
theorem accept_eventual : (node.accept task).eventual =
    node.eventual.append node.log.base.nextUnstableEnts := by
  unfold eventual
  rw [accept_nextSnapshot]
  simp only [accept, foldl_append, foldl_cons, foldl_nil]
  rw [LogStore.write, entries]
  exact congrArg (LogStore.append · _) (restoreTask_eventual snapshot)

include entries snapshot in
theorem accept_written (shaped : node.view.Shaped) :
    RaftLog.Written node.view (node.accept task).view := by
  have written := shaped.written node.eventual.hardState
  have same : node.view.written node.eventual.hardState = (node.accept task).view := by
    unfold RaftLog.written LogNode.view
    rw [accept_eventual entries snapshot]
    have frame := LogStore.append_frame node.eventual node.log.base.nextUnstableEnts
    simp only [onto, RaftLog.nextUnstableEnts] at frame ⊢
    rw [frame]
    rfl
  rwa [same] at written

theorem nextUnstableEnts_from (shaped : node.view.Shaped) :
    Consecutive node.log.base.unstable.offsetInProgress node.log.base.nextUnstableEnts := by
  have begun : node.log.base.unstable.offset ≤ node.log.base.unstable.offsetInProgress := shaped.begun
  have numbered := shaped.unstableIndexes.drop
    (node.log.base.unstable.offsetInProgress - node.log.base.unstable.offset)
  rwa [show node.view.unstable.offset + (node.log.base.unstable.offsetInProgress -
    node.log.base.unstable.offset) = node.log.base.unstable.offsetInProgress from
      Nat.add_sub_of_le begun] at numbered

theorem nextUnstableEnts_ne_nil (shaped : node.view.Shaped) (nonempty : node.log.base.nextUnstableEnts ≠ []) :
    node.log.base.unstable.offsetInProgress ≤ node.view.lastIndex := by
  have last := shaped.lastIndex_unstable
  have begun := shaped.begun
  have positive := length_pos_iff.mpr nonempty
  unfold RaftLog.nextUnstableEnts Unstable.nextEntries at positive
  rw [length_drop] at positive
  have same : node.view.unstable = node.log.base.unstable := rfl
  rw [same] at last begun
  omega

include entries snapshot in
theorem Sound.accept_continues (sound : Sound history node) :
    task.Continues (node.queue.foldl LogStore.write node.log.base.storage) := by
  refine .inr ⟨node.log.base.unstable.offsetInProgress, entries ▸ nextUnstableEnts_from sound.shaped, ?_, ?_⟩
  · rw [restoreTask_eventual snapshot]
    exact le_trans sound.shaped.low sound.shaped.begun
  · rw [restoreTask_eventual snapshot]
    have low := sound.shaped.low
    have high := sound.shaped.high
    have pending := sound.shaped.pending
    have stored := sound.shaped.stored.length_le
    rw [length_take, length_drop] at stored
    have sameTail : node.view.unstable = node.log.base.unstable := rfl
    have sameStore : node.view.storage = node.eventual := rfl
    rw [sameTail] at low high pending stored
    rw [sameStore] at low high stored
    simp only [LogStore.lastIndex, LogStore.firstIndex] at *
    omega

include entries snapshot in
theorem Sound.accept (sound : Sound history node) (term : task.term = node.term)
    (attested : task.index = 0 ∨ (node.log.base.unstable.entries ≠ [] ∧
      task.index = node.view.lastIndex ∧ node.view.term task.index = .ok task.logTerm)) :
    Sound history (node.accept task) := by
  have written := accept_written entries snapshot sound.shaped
  have sameTerm (index : Nat) : (node.accept task).view.term index = node.view.term index :=
    RaftLog.Shaped.term_of_suffix sound.shaped written.shaped written.suffix written.boundary
      written.boundaryTerm index
  have offset : (node.accept task).log.base.unstable.offset = node.log.base.unstable.offset := written.offset
  have tail : (node.accept task).log.base.unstable.entries = node.log.base.unstable.entries := written.entries
  have progress : (node.accept task).log.base.unstable.offsetInProgress = node.view.lastIndex + 1 :=
    written.progress
  have numbered := nextUnstableEnts_from sound.shaped
  have begun : node.log.base.unstable.offset ≤ node.log.base.unstable.offsetInProgress := sound.shaped.begun
  have tasks : (node.accept task).tasks = node.tasks ++ [task] := by
    simp only [LogNode.tasks, LogNode.accept, append_assoc]
  have settled (before : List AppendTask) : (node.accept task).Settled before ↔ node.Settled before := Iff.rfl
  have held (pending : SnapshotMeta) (isPending : node.log.snapshot = some pending) :
      ∃ holder ∈ node.tasks ++ [task], holder.snapshot = some pending := by
    cases isNext : node.log.nextSnapshot with
    | none =>
      obtain ⟨holder, mem, holds⟩ := sound.snapshots.accepted pending isPending isNext
      exact ⟨holder, mem_append_left _ mem, holds⟩
    | some waiting => exact ⟨task, by simp, by rw [snapshot, isNext, ← nextSnapshot_eq isNext, isPending]⟩
  refine ⟨written.shaped, ?_, ?_, ?_, ?_, ?_, ?_, ?_, ?_⟩
  · exact LogStore.writable_append.mpr ⟨sound.writable, sound.accept_continues entries snapshot⟩
  · intro pending isPending
    obtain ⟨first, boundaryTerm, aligned⟩ := sound.pending pending isPending
    exact ⟨written.boundary.trans first, written.boundaryTerm.trans boundaryTerm, offset.trans aligned⟩
  · obtain ⟨ordered, absent, waiting, accepted, latest, bounded⟩ := sound.snapshots
    constructor <;> rw [tasks]
    · refine pairwise_snoc.mpr ⟨ordered, fun earlier mem first second isFirst isSecond => ?_⟩
      rw [snapshot] at isSecond
      exact waiting second isSecond earlier mem first isFirst
    · refine fun none => forall_mem_snoc (absent none) ?_
      rw [snapshot]
      cases isNext : node.log.nextSnapshot with
      | none => rfl
      | some pending => exact (nextSnapshot_eq isNext).symm.trans none
    · intro pending isPending
      rw [accept_nextSnapshot] at isPending
      cases isPending
    · exact fun pending isPending _ => held pending isPending
    · refine fun pending isPending => forall_mem_snoc (latest pending isPending) fun other isOther => ?_
      rw [snapshot] at isOther
      have same := (nextSnapshot_eq isOther).symm.trans isPending
      rw [some.inj same]
    · refine forall_mem_snoc bounded fun other isOther => ?_
      rw [snapshot] at isOther
      obtain ⟨first, -, -⟩ := sound.pending _ (nextSnapshot_eq isOther)
      exact first ▸ sound.kept
  · intro before other after split
    rw [tasks] at split
    rcases split_concat split with ⟨rfl, rfl, rfl⟩ | ⟨others, rfl, earlier⟩
    · -- the accepted task itself
      refine ⟨le_of_eq term, fun zero => ?_, fun index _ => .inl ?_, fun _ => ?_⟩
      · rcases attested with none | ⟨filled, -, -⟩
        · exact none
        · exact absurd (sound.idle (term ▸ zero)) filled
      · obtain ⟨-, isLast, found⟩ := attested.resolve_left index
        refine ⟨(sameTerm _).trans found, by omega, accept_nextSnapshot, ?_, by simp⟩
        cases pending : node.log.snapshot with
        | none => exact .inl pending
        | some current =>
          obtain ⟨holder, mem, holds⟩ := held current pending
          exact .inr ⟨holder, mem, holds.trans pending.symm⟩
      · by_cases empty : other.entries = []
        · exact .inl empty
        rw [entries] at empty
        refine .inr ⟨.inr ⟨_, entries ▸ numbered, by omega⟩, ?_⟩
        rw [tail]
        rintro nothing
        unfold RaftLog.nextUnstableEnts Unstable.nextEntries at empty
        rw [nothing, drop_nil] at empty
        exact empty rfl
    · -- a task from before
      have ok := sound.tasksOk before other others earlier
      refine ⟨ok.term_le, ok.local_term, fun index current => ?_, ?_⟩
      · rcases ok.attested index current with attests | overtaken
        · have inLog := (sound.shaped.term_inside attests.found).2
          refine .inl ⟨(sameTerm _).trans attests.found, by omega, accept_nextSnapshot, attests.settled, ?_⟩
          rw [written.lastIndex]
          intro later mem
          rcases mem_append.mp mem with mem | isTask
          · exact attests.later later mem
          rw [mem_singleton.mp isTask, snapshot]
          refine ⟨attests.taken, ?_⟩
          by_cases empty : task.entries = []
          · exact .inl empty
          have accepted := attests.accepted
          have reaches := nextUnstableEnts_ne_nil sound.shaped (entries ▸ empty)
          exact .inr ⟨.inr ⟨_, entries ▸ numbered, by omega⟩, by omega⟩
        · exact .inr (overtaken.mono (le_rfl) (le_of_eq offset.symm) sameTerm rfl)
      · rw [settled, offset, tail]
        exact ok.above
  · intro high low highTerm lowTerm highFound lowFound
    rw [sameTerm] at highFound lowFound
    exact sound.path high low highTerm lowTerm highFound lowFound
  · intro zero
    exact tail.trans (sound.idle zero)
  · exact (le_of_eq written.boundary).trans sound.kept
  · rw [written.lastIndex]
    exact sound.committed_le

end Accept

theorem acceptInProgress_eq (empty : node.log.base.unstable.entries = [])
    (none : node.log.nextSnapshot = none) : node.log.acceptInProgress = node.log := by
  obtain ⟨⟨base, snapshot, inProgress⟩, term, async, queue, answers, applies⟩ := node
  have tail : base.acceptUnstable = base := by
    unfold RaftLog.acceptUnstable Unstable.acceptInProgress
    rw [show base.unstable.entries = [] from empty]
    rfl
  simp only [acceptInProgress, tail]
  cases snapshot with
  | none => rfl
  | some pending =>
    cases inProgress with
    | true => rfl
    | false => cases none

structure Accepted (sizes : Sizes) (node : LogNode) (ready : LogReady) (next : LogNode) : Prop where
  committed : node.log.nextCommittedEnts sizes (!node.asyncStorageWrites) = some ready.committedEntries
  entries : ready.entries = node.log.base.nextUnstableEnts
  snapshot : ready.snapshot = node.log.nextSnapshot
  idle : node.asyncStorageWrites = false → node.queue = [] ∧ node.answers = [] ∧ node.applies = []
  task : ∃ task, node.appendTask ready = some task ∧ next.queue = node.queue ++ task.toList
  frame : next = { node with
    log := next.log
    queue := next.queue
    applies := node.applies ++ if ready.committedEntries = [] then [] else [ready.committedEntries] }
  log : (ready.committedEntries = [] ∧ next.log = node.log.acceptInProgress) ∨
    ∃ last, ready.committedEntries.getLast? = some last ∧
      node.log.acceptInProgress.acceptApplying last.index (entsSize sizes ready.committedEntries)
        (!node.asyncStorageWrites) = some next.log

variable {sizes : Sizes} {ready : LogReady}

theorem getReady_accepted (done : node.getReady sizes = some (next, ready)) :
    Accepted sizes node ready next := by
  obtain ⟨found, read, done⟩ := bind_eq_some_iff.mp done
  obtain ⟨accepted, isAccepted, done⟩ := bind_eq_some_iff.mp done
  cases done
  obtain ⟨committedEntries, committed, read⟩ := bind_eq_some_iff.mp read
  cases read
  unfold acceptReady at isAccepted
  split at isAccepted
  · cases isAccepted
  rename_i allowed
  obtain ⟨task, isTask, isAccepted⟩ := bind_eq_some_iff.mp isAccepted
  have idle : node.asyncStorageWrites = false →
      node.queue = [] ∧ node.answers = [] ∧ node.applies = [] := by
    intro async
    simpa [async] using allowed
  split at isAccepted
  next noLast =>
    have empty : committedEntries = [] := getLast?_eq_none_iff.mp noLast
    cases isAccepted
    exact ⟨committed, rfl, rfl, idle, ⟨task, isTask, rfl⟩, by simp [empty], .inl ⟨empty, rfl⟩⟩
  next last isLast =>
    obtain ⟨log, applying, isAccepted⟩ := bind_eq_some_iff.mp isAccepted
    cases isAccepted
    have nonempty : committedEntries ≠ [] := by
      rintro rfl
      cases isLast
    exact ⟨committed, rfl, rfl, idle, ⟨task, isTask, rfl⟩, by simp [nonempty], .inr ⟨last, isLast, applying⟩⟩

theorem Accepted.log_same (accepted : Accepted sizes node ready next) :
    next.log.snapshot = node.log.acceptInProgress.snapshot ∧
      next.log.snapshotInProgress = node.log.acceptInProgress.snapshotInProgress ∧
      next.log.base.storage = node.log.base.storage ∧
      next.log.base.unstable = node.log.acceptInProgress.base.unstable ∧
      next.log.base.committed = node.log.base.committed := by
  rcases accepted.log with ⟨-, same⟩ | ⟨last, -, applying⟩
  · rw [same]
    exact ⟨rfl, rfl, rfl, rfl, rfl⟩
  · unfold acceptApplying at applying
    split at applying
    · cases applying
    · rw [← some.inj applying]
      exact ⟨rfl, rfl, rfl, rfl, rfl⟩

theorem appendTask_cases {found : Option AppendTask} (done : node.appendTask ready = some found) :
    (found = none ∧ node.log.base.unstable.entries = [] ∧ ready.snapshot = none) ∨
      ∃ task, found = some task ∧ task.entries = ready.entries ∧ task.snapshot = ready.snapshot ∧
        task.term = node.term ∧ (task.index = 0 ∨ (node.log.base.unstable.entries ≠ [] ∧
          task.index = node.log.lastIndex ∧ node.log.lastTerm = some task.logTerm)) := by
  unfold appendTask at done
  split at done
  next empty =>
    split at done
    next none =>
      exact .inl ⟨(some.inj done).symm, isEmpty_iff.mp empty, isNone_iff_eq_none.mp none⟩
    · exact .inr ⟨_, (some.inj done).symm, rfl, rfl, rfl, .inl rfl⟩
  next filled =>
    obtain ⟨logTerm, isTerm, done⟩ := bind_eq_some_iff.mp done
    refine .inr ⟨_, (some.inj done).symm, rfl, rfl, rfl, .inr ⟨fun empty => ?_, rfl, isTerm⟩⟩
    exact filled (isEmpty_iff.mpr empty)

theorem Sound.accepted (sound : Sound history node)
    (accepted : Accepted sizes node ready next) : Sound history next := by
  obtain ⟨snapshot, inProgress, storage, unstable, committed⟩ := accepted.log_same
  obtain ⟨task, isTask, queue⟩ := accepted.task
  have answers : next.answers = node.answers := by rw [accepted.frame]
  have term : next.term = node.term := by rw [accepted.frame]
  have before := sound.committed_le
  rcases appendTask_cases isTask with ⟨rfl, empty, none⟩ | ⟨task, rfl, entries, taskSnapshot, taskTerm, attests⟩
  · have same := acceptInProgress_eq empty (accepted.snapshot ▸ none)
    rw [same] at snapshot inProgress unstable
    refine sound.of_same ⟨?_, answers, snapshot, inProgress, storage, unstable⟩ term
      (le_of_eq committed.symm) (by omega)
    simpa using queue
  · have attested : task.index = 0 ∨ (node.log.base.unstable.entries ≠ [] ∧
        task.index = node.view.lastIndex ∧ node.view.term task.index = .ok task.logTerm) := by
      refine attests.imp_right fun ⟨filled, isLast, isTerm⟩ => ⟨filled, isLast.trans sound.lastIndex_eq, ?_⟩
      unfold lastTerm at isTerm
      rw [sound.term_eq, ← isLast] at isTerm
      cases found : node.view.term task.index with
      | error => rw [found] at isTerm; cases isTerm
      | ok => rw [found] at isTerm; cases isTerm; rfl
    have marked := sound.accept (entries.trans accepted.entries) (taskSnapshot.trans accepted.snapshot)
      taskTerm attested
    have stays := marked.committed_le
    refine marked.of_same ⟨queue, answers, snapshot, inProgress, storage, unstable⟩ term
      (le_of_eq committed.symm) ?_
    rw [committed]
    exact stays

theorem writeNext_cases (done : node.writeNext = some next) : ∃ task queue, node.queue = task :: queue ∧
    next.tasks = node.tasks ∧ next.eventual = node.eventual ∧ next = { node with
      log := { node.log with base := { node.log.base with storage := node.log.base.storage.write task } }
      queue
      answers := node.answers ++ [task] } := by
  unfold writeNext at done
  cases isQueue : node.queue with
  | nil =>
    rw [isQueue] at done
    cases done
  | cons task queue =>
    rw [isQueue] at done
    obtain rfl := some.inj done
    refine ⟨task, queue, rfl, ?_, ?_, rfl⟩
    · rw [tasks, tasks, isQueue, append_assoc]
      rfl
    · unfold eventual
      rw [isQueue]
      rfl

theorem Sound.writeNext (sound : Sound history node) (done : node.writeNext = some next) :
    Sound history next := by
  obtain ⟨task, queue, isQueue, tasks, eventual, rfl⟩ := writeNext_cases done
  have writable := sound.writable
  rw [isQueue] at writable
  exact sound.of_view tasks eventual rfl rfl rfl writable.2 rfl (le_rfl) sound.committed_le

end LogNode

end RocksGraph.Eraft
