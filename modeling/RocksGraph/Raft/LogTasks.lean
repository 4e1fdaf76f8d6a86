import RocksGraph.Foundation.Transition
import RocksGraph.Raft.LogNode
import RocksGraph.Raft.LogView

/-! The tasks of the storage and what the log expects of them.

The eventual storage is the one that all accepted tasks leave behind. Over it
the log has the shape that `LogSpec` describes, at every moment; the storage
itself lags behind and is read only where no task can change it any more. -/

set_option autoImplicit false

namespace RocksGraph.Eraft

open Foundation List

/-- The logs of the leaders of a cluster, by the terms of their entries. In every
log that has an entry of `index` and `term`, the term at `low` is `lineage index
term low` (Log Matching); the log of the leader of a term has the term `leader term
index` at `index`. There is no leader of the term 0. -/
structure History where
  lineage : Nat → Nat → Nat → Nat
  leader : Nat → Nat → Option Nat
  lineage_self : ∀ index term, lineage index term index = term
  lineage_trans : ∀ index term middle low, low ≤ middle → middle ≤ index →
    lineage middle (lineage index term middle) low = lineage index term low
  leader_lineage : ∀ term index found low, leader term index = some found → 1 ≤ low → low ≤ index →
    leader term low = some (lineage index found low)
  leader_zero : ∀ index, leader 0 index = none

/-- The input is one that raft makes: entries and snapshots come from the leader
of the current term, which a node that appends proposals is itself. -/
def LogInput.Lawful (history : History) (node : LogNode) : LogInput → Prop
  | .appendEntry payloads =>
    (1 ≤ node.log.lastIndex → history.leader node.term node.log.lastIndex = node.log.lastTerm) ∧
      ∀ entry ∈ Raft.numberEntries node.term (node.log.lastIndex + 1) payloads,
        history.leader node.term entry.index = some entry.term
  | .handleAppendEntries index logTerm _ entries =>
    Consecutive (index + 1) entries ∧ (1 ≤ index → history.leader node.term index = some logTerm) ∧
      ∀ entry ∈ entries, history.leader node.term entry.index = some entry.term
  | .restore snapshot => history.leader node.term snapshot.index = some snapshot.term
  | .newTerm _ | .handleHeartbeat _ | .maybeCommit _ => True

def LogEvent.Lawful (history : History) (node : LogNode) : LogEvent → Prop
  | .step input => input.Lawful history node
  | .ready | .write | .appendResp | .applyResp | .advance => True

instance (history : History) (node : LogNode) (input : LogInput) : Decidable (input.Lawful history node) := by
  unfold LogInput.Lawful
  split <;> infer_instance

instance (history : History) (node : LogNode) (event : LogEvent) : Decidable (event.Lawful history node) := by
  unfold LogEvent.Lawful
  split <;> infer_instance

/-- A task continues a storage: its entries are numbered from an index that the
storage, once it holds the snapshot of the task, reaches. -/
def AppendTask.Continues (task : AppendTask) (store : LogStore) : Prop :=
  task.entries = [] ∨ ∃ start, Consecutive start task.entries ∧
    (store.restoreTask task).firstIndex ≤ start ∧ start ≤ (store.restoreTask task).lastIndex + 1

/-- The entries of a task are numbered from an index that is not below `bound`. -/
def AppendTask.From (task : AppendTask) (bound : Nat) : Prop :=
  task.entries = [] ∨ ∃ start, Consecutive start task.entries ∧ bound ≤ start

def Writable : LogStore → List AppendTask → Prop
  | _, [] => True
  | store, task :: rest => task.Continues store ∧ Writable (store.write task) rest

variable {bound : Nat}

theorem AppendTask.From.mono {task : AppendTask} {lower : Nat} (starts : task.From bound)
    (le : lower ≤ bound) : task.From lower := by
  rcases starts with empty | ⟨start, consecutive, above⟩
  · exact .inl empty
  · exact .inr ⟨start, consecutive, le_trans le above⟩

namespace LogStore

variable {store : LogStore} {task : AppendTask}

theorem append_eq {entries : List Entry} {start : Nat} (consecutive : Consecutive start entries)
    (nonempty : entries ≠ []) (above : store.firstIndex ≤ start) :
    store.append entries = { store with
      entries := store.entries.take (start - store.firstIndex) ++ entries } := by
  obtain ⟨head, rest, rfl⟩ := exists_cons_of_ne_nil nonempty
  unfold append
  simp only [consecutive.head, length_cons]
  rw [if_neg (by omega), max_eq_left above, Nat.sub_eq_zero_of_le above, drop_zero]

theorem write_nil (none : task.snapshot = none) (empty : task.entries = []) : store.write task = store := by
  unfold write restoreTask
  rw [none, empty]
  rfl

theorem write_below (none : task.snapshot = none) (continues : task.Continues store)
    (starts : task.From bound) (inside : bound ≤ (store.write task).lastIndex + 1) :
    (store.write task).firstEntryIndex = store.firstEntryIndex ∧
      (store.write task).boundaryTerm = store.boundaryTerm ∧ bound ≤ store.lastIndex + 1 ∧
      (store.write task).entries.take (bound - store.firstIndex) =
        store.entries.take (bound - store.firstIndex) := by
  by_cases empty : task.entries = []
  · rw [write_nil none empty] at inside ⊢
    exact ⟨rfl, rfl, inside, rfl⟩
  obtain ⟨start, consecutive, above, reaches⟩ := continues.resolve_left empty
  obtain ⟨from', consecutive', bounded⟩ := starts.resolve_left empty
  have base : store.restoreTask task = store := by
    unfold restoreTask
    rw [none]
  rw [base] at above reaches
  have same : from' = start := by
    obtain ⟨head, rest, cons⟩ := exists_cons_of_ne_nil empty
    rw [cons] at consecutive consecutive'
    exact consecutive'.head.symm.trans consecutive.head
  subst same
  have written : store.write task = { store with
      entries := store.entries.take (from' - store.firstIndex) ++ task.entries } := by
    unfold write
    rw [base, append_eq consecutive empty above]
  rw [written]
  refine ⟨rfl, rfl, by omega, ?_⟩
  have length : (store.entries.take (from' - store.firstIndex)).length = from' - store.firstIndex := by
    simp only [length_take, lastIndex, firstIndex] at *
    omega
  rw [take_append_of_le_length (by omega), take_take, min_eq_left (by omega)]

variable {queue : List AppendTask}

theorem writeAll_below (noSnapshot : ∀ task ∈ queue, task.snapshot = none)
    (writable : Writable store queue) (starts : ∀ task ∈ queue, task.From bound)
    (inside : bound ≤ (queue.foldl write store).lastIndex + 1) :
    (queue.foldl write store).firstEntryIndex = store.firstEntryIndex ∧
      (queue.foldl write store).boundaryTerm = store.boundaryTerm ∧ bound ≤ store.lastIndex + 1 ∧
      (queue.foldl write store).entries.take (bound - store.firstIndex) =
        store.entries.take (bound - store.firstIndex) := by
  induction queue generalizing store with
  | nil => exact ⟨rfl, rfl, inside, rfl⟩
  | cons task rest ih =>
    obtain ⟨continues, writable⟩ := writable
    obtain ⟨first, term, reaches, same⟩ := ih (fun other mem => noSnapshot other (.tail _ mem)) writable
      (fun other mem => starts other (.tail _ mem)) inside
    obtain ⟨first', term', reaches', same'⟩ :=
      write_below (noSnapshot task (.head _)) continues (starts task (.head _)) reaches
    have sameFirst : (store.write task).firstIndex = store.firstIndex := by
      simp only [firstIndex, first']
    rw [sameFirst] at same
    exact ⟨first.trans first', term.trans term', reaches', same.trans same'⟩

theorem writeAll_nil (noSnapshot : ∀ task ∈ queue, task.snapshot = none)
    (empty : ∀ task ∈ queue, task.entries = []) : queue.foldl write store = store := by
  refine foldlRecOn (motive := (· = store)) queue _ rfl fun _ same task mem => ?_
  rw [same, write_nil (noSnapshot task mem) (empty task mem)]

theorem writable_append {task : AppendTask} : Writable store (queue ++ [task]) ↔
      Writable store queue ∧ task.Continues (queue.foldl write store) := by
  induction queue generalizing store with
  | nil => simp [Writable]
  | cons first rest ih =>
    rw [cons_append, Writable, Writable, ih, foldl_cons, and_assoc]

end LogStore

namespace LogNode

def eventual (node : LogNode) : LogStore :=
  let written := node.queue.foldl LogStore.write node.log.base.storage
  match node.log.nextSnapshot with
  | some snapshot => written.applySnapshot snapshot
  | none => written

def view (node : LogNode) : RaftLog := node.log.onto node.eventual

def tasks (node : LogNode) : List AppendTask := node.answers ++ node.queue

def Settled (node : LogNode) (before : List AppendTask) : Prop :=
  node.log.snapshot = none ∨ ∃ task ∈ before, task.snapshot = node.log.snapshot

/-- A task whose answer may be believed: the log still has the entry that it
attests, and no later task changes the storage up to there. -/
structure Attests (node : LogNode) (before : List AppendTask) (task : AppendTask)
    (after : List AppendTask) : Prop where
  found : node.view.term task.index = .ok task.logTerm
  accepted : task.index < node.log.base.unstable.offsetInProgress
  taken : node.log.nextSnapshot = none
  settled : node.Settled (before ++ [task])
  later : ∀ other ∈ after, other.snapshot = none ∧ (other.entries = [] ∨
    other.From (task.index + 1) ∧ task.index < node.view.lastIndex)

variable (history : History)

/-- A task whose answer will be ignored: what it attests is below the tail for
good, or the leader of the term replaced a part of the log that it rests on. -/
inductive Overtaken (node : LogNode) (task : AppendTask) : Prop where
  | passed (committed : task.index ≤ node.log.base.committed)
      (below : task.index < node.log.base.unstable.offset)
  | replaced (index term : Nat) (positive : 1 ≤ index) (covered : index ≤ task.index)
      (found : node.view.term index = .ok term) (led : history.leader node.term index = some term)
      (differs : term ≠ history.lineage task.index task.logTerm index)

structure TaskOk (node : LogNode) (before : List AppendTask) (task : AppendTask)
    (after : List AppendTask) : Prop where
  term_le : task.term ≤ node.term
  local_term : task.term = 0 → task.index = 0
  attested : task.index ≠ 0 → task.term = node.term →
    node.Attests before task after ∨ Overtaken history node task
  above : node.Settled (before ++ [task]) → task.entries = [] ∨
    task.From node.log.base.unstable.offset ∧ node.log.base.unstable.entries ≠ []

/-- The snapshots of the tasks come in the order of their indexes, and the
pending one is the last of them once it is accepted. -/
structure SnapshotsOk (node : LogNode) : Prop where
  ordered : node.tasks.Pairwise fun earlier later => ∀ first second,
    earlier.snapshot = some first → later.snapshot = some second → first.index < second.index
  absent : node.log.snapshot = none → ∀ task ∈ node.tasks, task.snapshot = none
  waiting : ∀ snapshot, node.log.nextSnapshot = some snapshot → ∀ task ∈ node.tasks, ∀ other,
    task.snapshot = some other → other.index < snapshot.index
  accepted : ∀ snapshot, node.log.snapshot = some snapshot → node.log.nextSnapshot = none →
    ∃ task ∈ node.tasks, task.snapshot = some snapshot
  latest : ∀ snapshot, node.log.snapshot = some snapshot → ∀ task ∈ node.tasks, ∀ other,
    task.snapshot = some other → other.index ≤ snapshot.index
  committed : ∀ task ∈ node.tasks, ∀ snapshot, task.snapshot = some snapshot →
    snapshot.index ≤ node.log.base.committed

structure Sound (node : LogNode) : Prop where
  shaped : node.view.Shaped
  writable : Writable node.log.base.storage node.queue
  pending : ∀ snapshot, node.log.snapshot = some snapshot →
    node.eventual.firstEntryIndex = snapshot.index ∧ node.eventual.boundaryTerm = snapshot.term ∧
      node.log.base.unstable.offset = snapshot.index + 1
  snapshots : node.SnapshotsOk
  tasksOk : ∀ before task after, node.tasks = before ++ task :: after →
    TaskOk history node before task after
  path : ∀ high low term found, node.view.term high = .ok term → node.view.term low = .ok found →
    1 ≤ low → low ≤ high → history.lineage high term low = found
  idle : node.term = 0 → node.log.base.unstable.entries = []
  kept : node.eventual.firstEntryIndex ≤ node.log.base.committed
  committed_le : node.log.base.committed ≤ node.view.lastIndex

variable {history} {node next : LogNode}

theorem Sound.reads (sound : Sound history node) : node.log.Reads node.eventual := by
  refine ⟨sound.pending, fun noSnapshot => ?_⟩
  have noTask := sound.snapshots.absent noSnapshot
  have inQueue (task : AppendTask) (mem : task ∈ node.queue) : task ∈ node.tasks :=
    mem_append_right _ mem
  have above (task : AppendTask) (mem : task ∈ node.queue) : task.entries = [] ∨
      task.From node.log.base.unstable.offset ∧ node.log.base.unstable.entries ≠ [] := by
    obtain ⟨before, after, split⟩ := append_of_mem (inQueue task mem)
    exact (sound.tasksOk before task after split).above (.inl noSnapshot)
  have eventual : node.eventual = node.queue.foldl LogStore.write node.log.base.storage := by
    unfold LogNode.eventual SnapshotLog.nextSnapshot
    rw [noSnapshot]
    simp
  have high := sound.shaped.high
  have reaches : node.log.base.unstable.offset ≤
      (node.queue.foldl LogStore.write node.log.base.storage).lastIndex + 1 := eventual ▸ high
  obtain ⟨first, term, inside, same⟩ := LogStore.writeAll_below
    (fun task mem => noTask task (inQueue task mem)) sound.writable
    (fun task mem => (above task mem).elim .inl And.left) reaches
  have sameFirst : node.eventual.firstIndex = node.log.base.storage.firstIndex := by
    simp only [LogStore.firstIndex, eventual, first]
  refine ⟨?_, ?_, ?_, inside, fun empty => ?_⟩
  · rw [eventual, first]
  · rw [eventual, term]
  · rw [sameFirst, eventual, same]
  · rw [eventual, LogStore.writeAll_nil (fun task mem => noTask task (inQueue task mem))]
    intro task mem
    exact (above task mem).elim id fun nonempty => absurd empty nonempty.2

theorem Sound.term_eq (sound : Sound history node) (index : Nat) :
    node.log.term index = node.view.term index := sound.reads.term_eq sound.shaped index

theorem Sound.lastIndex_eq (sound : Sound history node) : node.log.lastIndex = node.view.lastIndex :=
  sound.reads.lastIndex_eq sound.shaped

end LogNode

end RocksGraph.Eraft
