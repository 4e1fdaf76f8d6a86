import RocksGraph.Raft.LogTasks
import RocksGraph.Raft.Steps

/-! Every event keeps a node sound. -/

set_option autoImplicit false

namespace RocksGraph.Eraft

open List Option SnapshotLog

namespace RaftLog

variable {log next : RaftLog}

theorem lastIndex_congr (storage : next.storage = log.storage) (unstable : next.unstable = log.unstable) :
    next.lastIndex = log.lastIndex := by
  unfold lastIndex
  rw [storage, unstable]

theorem term_congr (storage : next.storage = log.storage) (unstable : next.unstable = log.unstable)
    (index : Nat) : next.term index = log.term index := by
  unfold term firstIndex
  rw [lastIndex_congr storage unstable, storage, unstable]

theorem Shaped.of_empty (empty : log.storage.entries = [])
    (unstable : log.unstable = ⟨[], log.boundary + 1, log.boundary + 1⟩) :
    log.Shaped ∧ log.lastIndex = log.boundary ∧ ∀ index term, log.term index = .ok term ↔
      index = log.boundary ∧ term = log.storage.boundaryTerm := by
  have lastStored : log.storage.lastIndex = log.boundary := by
    unfold LogStore.lastIndex
    rw [empty]
    rfl
  have shaped : log.Shaped := by
    constructor <;> simp only [unstable, empty, lastStored, take_nil]
    · exact le_rfl
    · exact le_rfl
    · exact fun _ => trivial
    · exact le_rfl
    · exact le_rfl
    · exact nil_prefix
    · exact Consecutive.nil
    · exact Consecutive.nil
  have suffix : log.suffix = [] := by
    unfold RaftLog.suffix
    rw [unstable, empty, take_nil]
    rfl
  refine ⟨shaped, by rw [shaped.lastIndex_eq, suffix]; rfl, fun index term => ?_⟩
  rw [shaped.term_eq, RaftLog.suffixTerm, suffix]
  split
  · constructor
    · intro found
      cases found
    · omega
  · split
    next same =>
      constructor
      · intro found
        exact ⟨same, (Except.ok.inj found).symm⟩
      · rintro ⟨-, rfl⟩
        rfl
    · constructor
      · intro found
        cases found
      · omega

end RaftLog

namespace LogNode

variable {history : History} {node next : LogNode}

theorem Overtaken.mono {task : AppendTask} (overtaken : Overtaken history node task)
    (committed : node.log.base.committed ≤ next.log.base.committed)
    (offset : node.log.base.unstable.offset ≤ next.log.base.unstable.offset)
    (terms : ∀ index, next.view.term index = node.view.term index) (term : next.term = node.term) :
    Overtaken history next task := by
  rcases overtaken with ⟨passed, below⟩ | ⟨index, entryTerm, positive, covered, found, led, differs⟩
  · exact .passed (le_trans passed committed) (lt_of_lt_of_le below offset)
  · exact .replaced index entryTerm positive covered ((terms index).trans found) (term ▸ led) differs

structure SameEntries (node next : LogNode) : Prop where
  queue : next.queue = node.queue
  answers : next.answers = node.answers
  snapshot : next.log.snapshot = node.log.snapshot
  inProgress : next.log.snapshotInProgress = node.log.snapshotInProgress
  storage : next.log.base.storage = node.log.base.storage
  unstable : next.log.base.unstable = node.log.base.unstable

namespace SameEntries

variable (same : SameEntries node next)

include same

theorem tasks : next.tasks = node.tasks := by
  unfold LogNode.tasks
  rw [same.queue, same.answers]

theorem nextSnapshot : next.log.nextSnapshot = node.log.nextSnapshot := by
  unfold SnapshotLog.nextSnapshot
  rw [same.snapshot, same.inProgress]

theorem eventual : next.eventual = node.eventual := by
  unfold LogNode.eventual
  rw [same.nextSnapshot, same.queue, same.storage]

end SameEntries

/-- What an input does to a node. -/
inductive Stepped (node : LogNode) : LogInput → LogNode → Prop where
  | unchanged (input : LogInput) : Stepped node input node
  | newTerm {term : Nat} (later : node.term < term) : Stepped node (.newTerm term) { node with term }
  | appends {payloads : List Payload} {log : SnapshotLog}
      (done : node.log.append (Raft.numberEntries node.term (node.log.lastIndex + 1) payloads) = some log) :
      Stepped node (.appendEntry payloads) { node with log }
  | accepts {index logTerm commit : Nat} {entries : List Entry} {result : SnapshotLog × Option Nat}
      (done : node.log.maybeAppend index logTerm commit entries = some result) :
      Stepped node (.handleAppendEntries index logTerm commit entries) { node with log := result.1 }
  | commits {tocommit : Nat} {log : SnapshotLog} (input : LogInput)
      (done : node.log.commitTo tocommit = some log) : Stepped node input { node with log }
  | restores {snapshot : SnapshotMeta} (ahead : node.log.base.committed < snapshot.index)
      (differs : node.log.matchTerm snapshot.index snapshot.term = false) :
      Stepped node (.restore snapshot) { node with log := node.log.restore snapshot }

theorem step_cases {input : LogInput} (done : node.step input = some next) : Stepped node input next := by
  cases input with
  | newTerm term =>
    obtain ⟨later, done⟩ := ite_none_right_eq_some.mp done
    cases done
    exact .newTerm later
  | appendEntry payloads =>
    obtain ⟨log, appended, rfl⟩ := map_eq_some_iff.mp done
    exact .appends appended
  | handleAppendEntries index logTerm commit entries =>
    simp only [LogNode.step] at done
    split at done
    · cases done
      exact .unchanged _
    · obtain ⟨result, appended, rfl⟩ := map_eq_some_iff.mp done
      exact .accepts appended
  | handleHeartbeat commit =>
    obtain ⟨log, advanced, rfl⟩ := map_eq_some_iff.mp done
    exact .commits _ advanced
  | maybeCommit index =>
    obtain ⟨log, advanced, rfl⟩ := map_eq_some_iff.mp done
    unfold SnapshotLog.maybeCommit at advanced
    split at advanced
    · exact .commits _ advanced
    · cases advanced
      exact .unchanged _
  | restore snapshot =>
    simp only [LogNode.step, LogNode.restore] at done
    split at done
    · cases done
      exact .unchanged _
    next ahead =>
      split at done
      · obtain ⟨log, advanced, rfl⟩ := map_eq_some_iff.mp done
        exact .commits _ advanced
      next differs =>
        cases done
        exact .restores (lt_of_not_ge ahead) (by simpa using differs)

section

variable (sound : Sound history node)
include sound

namespace Sound

/-- The entries, the tasks and the snapshot stay, and what is written and committed may grow. -/
theorem of_view (tasks : next.tasks = node.tasks)
    (eventual : next.eventual = node.eventual) (snapshot : next.log.snapshot = node.log.snapshot)
    (nextSnapshot : next.log.nextSnapshot = node.log.nextSnapshot)
    (unstable : next.log.base.unstable = node.log.base.unstable)
    (writable : Writable next.log.base.storage next.queue) (term : next.term = node.term)
    (committed : node.log.base.committed ≤ next.log.base.committed)
    (committed_le : next.log.base.committed ≤ node.view.lastIndex) : Sound history next := by
  have storage : next.view.storage = node.view.storage := eventual
  have tail : next.view.unstable = node.view.unstable := unstable
  have sameTerm (index : Nat) : next.view.term index = node.view.term index := RaftLog.term_congr storage tail index
  have last : next.view.lastIndex = node.view.lastIndex := RaftLog.lastIndex_congr storage tail
  have settled (before : List AppendTask) : next.Settled before ↔ node.Settled before := by
    unfold Settled
    rw [snapshot]
  refine ⟨sound.shaped.congr eventual unstable, writable, ?_, ?_, ?_, ?_, ?_, ?_, ?_⟩
  · rw [snapshot, eventual, unstable]
    exact sound.pending
  · obtain ⟨ordered, absent, waiting, accepted, latest, bounded⟩ := sound.snapshots
    constructor <;> simp only [tasks, snapshot, nextSnapshot] <;> try assumption
    exact fun task mem other isOther => le_trans (bounded task mem other isOther) committed
  · intro before task after split
    rw [tasks] at split
    have ok := sound.tasksOk before task after split
    refine ⟨term ▸ ok.term_le, ok.local_term, fun index current => ?_, ?_⟩
    · rcases ok.attested index (term ▸ current) with attests | overtaken
      · exact .inl ⟨(sameTerm _).trans attests.found, unstable ▸ attests.accepted, nextSnapshot.trans attests.taken,
          (settled _).mpr attests.settled, last ▸ attests.later⟩
      · exact .inr (overtaken.mono committed (le_of_eq (by rw [unstable])) sameTerm term)
    · rw [settled, unstable]
      exact ok.above
  · intro high low highTerm lowTerm highFound lowFound
    rw [sameTerm] at highFound lowFound
    exact sound.path high low highTerm lowTerm highFound lowFound
  · rw [term, unstable]
    exact sound.idle
  · rw [eventual]
    exact le_trans sound.kept committed
  · rw [last]
    exact committed_le

theorem of_same (same : SameEntries node next)
    (term : next.term = node.term) (committed : node.log.base.committed ≤ next.log.base.committed)
    (committed_le : next.log.base.committed ≤ node.view.lastIndex) : Sound history next := by
  refine sound.of_view same.tasks same.eventual same.snapshot same.nextSnapshot same.unstable ?_ term committed
    committed_le
  rw [same.storage, same.queue]
  exact sound.writable

variable {term index : Nat}

theorem newTerm (later : node.term < term) :
    Sound history { node with term } := by
  refine ⟨sound.shaped, sound.writable, sound.pending,
    ⟨sound.snapshots.ordered, sound.snapshots.absent, sound.snapshots.waiting, sound.snapshots.accepted,
      sound.snapshots.latest, sound.snapshots.committed⟩, ?_, sound.path, ?_, sound.kept, sound.committed_le⟩
  · intro before task after split
    have ok := sound.tasksOk before task after split
    have le := ok.term_le
    exact ⟨by simp only; omega, ok.local_term, fun _ current => by simp only at current; omega, ok.above⟩
  · intro zero
    simp only at zero
    omega

/-- The log has the entry on the path of a later one. -/
theorem term_path {high low : Nat} (found : node.view.term high = .ok term) (kept : node.view.boundary ≤ low)
    (positive : 1 ≤ low) (ordered : low ≤ high) : node.view.term low = .ok (history.lineage high term low) := by
  have inside := sound.shaped.term_inside found
  obtain ⟨old, isOld⟩ := sound.shaped.term_ok kept (by omega)
  rw [sound.path _ _ _ _ found isOld positive ordered]
  exact isOld

variable {entries : List Entry} {snapshot : SnapshotMeta} {log : SnapshotLog}

/-- Entries of the leader replace the tail from an index on where the log has no
entry of the leader. -/
theorem append {start : Nat}
    (nonempty : entries ≠ []) (consecutive : Consecutive start entries)
    (above : node.log.base.committed < start) (done : node.log.append entries = some log)
    (led : ∀ entry ∈ entries, history.leader node.term entry.index = some entry.term)
    (follows : 1 ≤ start - 1 → ∃ term, node.view.term (start - 1) = .ok term ∧
      history.leader node.term (start - 1) = some term)
    (conflict : ∀ term, node.view.term start = .ok term → history.leader node.term start ≠ some term) :
    Sound history { node with log } := by
  obtain ⟨snapshot, inProgress, frame⟩ := append_frame done
  have nextSnapshot : log.nextSnapshot = node.log.nextSnapshot := by
    unfold nextSnapshot
    rw [snapshot, inProgress]
  have storage : log.base.storage = node.log.base.storage := by rw [frame]
  have committed : log.base.committed = node.log.base.committed := by rw [frame]
  have eventual : ({ node with log } : LogNode).eventual = node.eventual := by
    unfold LogNode.eventual
    simp only [nextSnapshot, storage]
  obtain ⟨reads, appended⟩ :=
    sound.reads.append sound.shaped sound.kept nonempty consecutive above done
  have boundary : node.view.boundary < start := lt_of_le_of_lt sound.kept above
  have view : ({ node with log } : LogNode).view = log.onto node.eventual := by
    unfold LogNode.view
    rw [eventual]
  have below {index : Nat} (before : index < start) :
      (log.onto node.eventual).term index = node.view.term index :=
    appended.term_below sound.shaped nonempty consecutive boundary before
  have newTerm {entry : Entry} (mem : entry ∈ entries) :
      (log.onto node.eventual).term entry.index = .ok entry.term :=
    appended.term_new nonempty consecutive boundary mem
  have last := appended.lastIndex_eq nonempty consecutive boundary
  have length := length_pos_iff.mpr nonempty
  have offset : log.base.unstable.offset = min node.log.base.unstable.offset start := appended.offset
  have progress : log.base.unstable.offsetInProgress =
      min node.log.base.unstable.offsetInProgress start := appended.progress
  obtain ⟨head, rest, isCons⟩ := exists_cons_of_ne_nil nonempty
  have headMember : head ∈ entries := isCons ▸ mem_cons_self
  have headIndex : head.index = start := (isCons ▸ consecutive : Consecutive start (head :: rest)).head
  have filled : log.base.unstable.entries ≠ [] := by
    intro empty
    have total := appended.shaped.lastIndex_unstable
    have noEntries : (log.onto node.eventual).unstable.entries.length = 0 := by
      rw [show (log.onto node.eventual).unstable = log.base.unstable from rfl, empty, length_nil]
    have offset' : (log.onto node.eventual).unstable.offset = min node.log.base.unstable.offset start :=
      offset
    omega
  refine ⟨?_, ?_, ?_, ?_, ?_, ?_, ?_, ?_, ?_⟩
  · rw [view]
    exact appended.shaped
  · simp only [storage]
    exact sound.writable
  · rw [eventual]
    exact reads.ofSnapshot
  · obtain ⟨ordered, absent, waiting, accepted, latest, bounded⟩ := sound.snapshots
    constructor <;> simp only [LogNode.tasks, snapshot, nextSnapshot, committed] <;> assumption
  · intro before task after split
    have ok := sound.tasksOk before task after split
    have settled (tasks : List AppendTask) :
        ({ node with log } : LogNode).Settled tasks ↔ node.Settled tasks := by
      unfold Settled
      simp only [snapshot]
    refine ⟨ok.term_le, ok.local_term, fun index current => ?_, ?_⟩
    · rcases ok.attested index current with attests | ⟨passed, low⟩ |
        ⟨entryIndex, entryTerm, positive, covered, found, leads, differs⟩
      · obtain ⟨inLow, inHigh⟩ := sound.shaped.term_inside attests.found
        by_cases kept : task.index < start
        · -- the entry that is attested stays
          refine .inl ⟨?_, ?_, nextSnapshot.trans attests.taken, (settled _).mpr attests.settled, ?_⟩
          · rw [view, below kept, attests.found]
          · have := attests.accepted
            simp only
            omega
          · rw [view]
            intro other mem
            obtain ⟨none, later⟩ := attests.later other mem
            exact ⟨none, later.imp_right fun starts => ⟨starts.1, by omega⟩⟩
        · -- the leader replaced a part of what the entry rests on
          have leads := headIndex ▸ led head headMember
          refine .inr (.replaced start head.term (by omega) (by omega) ?_ leads ?_)
          · rw [view, ← headIndex]
            exact newTerm headMember
          · intro same
            have old := sound.term_path attests.found (le_of_lt boundary) (by omega) (by omega)
            exact conflict _ old (same ▸ leads)
      · exact .inr (.passed (committed ▸ passed) (by simp only; omega))
      · by_cases kept : entryIndex < start
        · refine .inr (.replaced entryIndex entryTerm positive covered ?_ leads differs)
          rw [view, below kept, found]
        · -- the log follows the leader up to there
          have old := sound.term_path found (le_of_lt boundary) (by omega) (by omega)
          exact absurd (history.leader_lineage _ _ _ start leads (by omega) (by omega)) (conflict _ old)
    · rw [settled]
      intro isSettled
      refine (ok.above isSettled).imp_right fun starts => ⟨starts.1.mono (by simp only; omega), filled⟩
  · intro high low highTerm lowTerm highFound lowFound positive ordered
    rw [view] at highFound lowFound
    rcases appended.term_cases sound.shaped nonempty consecutive boundary highFound with
      ⟨highOld, highFound⟩ | ⟨highEntry, highMember, rfl, rfl⟩
    · rw [below (by omega)] at lowFound
      exact sound.path _ _ _ _ highFound lowFound positive ordered
    · have highLed := led _ highMember
      rcases appended.term_cases sound.shaped nonempty consecutive boundary lowFound with
        ⟨lowOld, lowFound⟩ | ⟨lowEntry, lowMember, rfl, rfl⟩
      · -- the entry before the new ones joins both parts
        obtain ⟨joint, isJoint, jointLed⟩ := follows (by omega)
        obtain ⟨k, isEntry⟩ := mem_iff_getElem?.mp highMember
        have position := consecutive k highEntry isEntry
        have through := history.leader_lineage _ _ _ (start - 1) highLed (by omega) (by omega)
        rw [jointLed] at through
        rw [← history.lineage_trans _ _ (start - 1) low (by omega) (by omega), ← some.inj through]
        exact sound.path _ _ _ _ isJoint lowFound positive (by omega)
      · have through := history.leader_lineage _ _ _ _ highLed positive ordered
        rw [led _ lowMember] at through
        exact (some.inj through).symm
  · intro zero
    have leads := led head headMember
    rw [zero, history.leader_zero] at leads
    cases leads
  · rw [eventual, committed]
    exact sound.kept
  · rw [view, committed]
    omega

theorem commitTo {tocommit : Nat}
    (done : node.log.commitTo tocommit = some log) : Sound history { node with log } := by
  have before := sound.committed_le
  have inside : node.log.base.committed < tocommit → tocommit ≤ node.view.lastIndex :=
    sound.reads.commitTo sound.shaped done
  rw [commitTo_frame done]
  refine sound.of_same ⟨rfl, rfl, rfl, rfl, rfl, rfl⟩ rfl (le_max_left _ _) ?_
  simp only
  omega

theorem appendEntry {payloads : List Payload}
    (lawful : (LogInput.appendEntry payloads).Lawful history node)
    (done : node.log.append (Raft.numberEntries node.term (node.log.lastIndex + 1) payloads) = some log) :
    Sound history { node with log } := by
  obtain ⟨lastLed, led⟩ := lawful
  rw [sound.lastIndex_eq] at lastLed led done
  have numbered := consecutive_numberEntries node.term payloads (node.view.lastIndex + 1)
  by_cases empty : Raft.numberEntries node.term (node.view.lastIndex + 1) payloads = []
  · rw [empty] at done
    cases done
    exact sound
  refine sound.append empty numbered (Nat.lt_succ_of_le sound.committed_le) done led ?_ ?_
  · intro positive
    rw [Nat.add_sub_cancel] at positive ⊢
    have boundary : node.view.boundary ≤ node.view.lastIndex := by
      rw [sound.shaped.lastIndex_eq]
      omega
    obtain ⟨term, found⟩ := sound.shaped.term_ok boundary (le_rfl)
    refine ⟨term, found, ?_⟩
    rw [lastLed positive]
    unfold lastTerm
    rw [sound.lastIndex_eq, sound.term_eq, found]
    rfl
  · intro term found
    have := (sound.shaped.term_inside found).2
    omega

theorem term_of_matchTerm
    (matched : node.log.matchTerm index term = true) : node.view.term index = .ok term := by
  rw [sound.reads.matchTerm_eq sound.shaped] at matched
  exact (sound.shaped.of_matchTerm matched).2.2

theorem unmatched (differs : node.log.matchTerm index term = false) :
    node.view.term index ≠ .ok term := by
  intro found
  rw [sound.reads.matchTerm_eq sound.shaped, RaftLog.matchTerm,
    show (node.log.onto node.eventual).term index = .ok term from found] at differs
  simp at differs

theorem maybeAppend {logTerm commit : Nat}
    {lastNew : Option Nat}
    (lawful : (LogInput.handleAppendEntries index logTerm commit entries).Lawful history node)
    (done : node.log.maybeAppend index logTerm commit entries = some (log, lastNew)) :
    Sound history { node with log } := by
  obtain ⟨consecutive, indexLed, led⟩ := lawful
  rcases maybeAppend_cases done with ⟨rfl, -⟩ | ⟨middle, matched, appended, advanced⟩
  · exact sound
  rcases appendNew_cases consecutive appended with
    ⟨rfl, -⟩ | ⟨before, entry, after, rfl, uncommitted, differs, known, appended⟩
  · exact sound.commitTo advanced
  have position : entry.index = index + 1 + before.length := consecutive before.length entry (by simp)
  have numbered : Consecutive entry.index (entry :: after) := by
    have := consecutive.drop before.length
    rwa [drop_left, ← position] at this
  have middleSound : Sound history { node with log := middle } := by
    refine sound.append (cons_ne_nil _ _) numbered uncommitted appended
      (fun other mem => led other (mem_append_right _ mem)) ?_ ?_
    · intro positive
      rcases eq_nil_or_concat before with rfl | ⟨others, last, rfl⟩
      · rw [show entry.index - 1 = index by rw [position]; rfl] at positive ⊢
        exact ⟨logTerm, sound.term_of_matchTerm matched, indexLed positive⟩
      · have lastIndex : last.index = entry.index - 1 := by
          have := consecutive others.length last (by simp)
          rw [position]
          simp only [concat_eq_append, length_append, length_singleton]
          omega
        rw [← lastIndex]
        exact ⟨last.term, sound.term_of_matchTerm (known last (by simp)), led last (by simp)⟩
    · intro term found leads
      rw [led entry (by simp)] at leads
      exact sound.unmatched differs (some.inj leads ▸ found)
  exact middleSound.commitTo advanced

/-! ## Restoring -/

theorem restoreLog
    (lawful : (LogInput.restore snapshot).Lawful history node)
    (ahead : node.log.base.committed < snapshot.index)
    (differs : node.log.matchTerm snapshot.index snapshot.term = false) :
    Sound history { node with log := node.log.restore snapshot } := by
  have led : history.leader node.term snapshot.index = some snapshot.term := lawful
  have kept : node.view.boundary ≤ snapshot.index := le_of_lt (lt_of_le_of_lt sound.kept ahead)
  obtain ⟨shaped, -, onlySnapshot⟩ := RaftLog.Shaped.of_empty
    (show ({ node with log := node.log.restore snapshot } : LogNode).view.storage.entries = [] from rfl) rfl
  refine ⟨shaped, sound.writable, ?_, ?_, ?_, ?_, fun _ => rfl, le_rfl, le_rfl⟩
  · rintro pending isPending
    obtain rfl := some.inj isPending
    exact ⟨rfl, rfl, rfl⟩
  · have older (task : AppendTask) (mem : task ∈ node.tasks) (other : SnapshotMeta)
        (isOther : task.snapshot = some other) : other.index < snapshot.index :=
      lt_of_le_of_lt (sound.snapshots.committed task mem other isOther) ahead
    refine ⟨sound.snapshots.ordered, ?_, ?_, ?_, ?_, ?_⟩
    · intro none
      cases none
    · rintro pending isPending
      obtain rfl := some.inj isPending
      exact older
    · intro pending isPending none
      cases none
    · rintro pending isPending
      obtain rfl := some.inj isPending
      exact fun task mem other isOther => le_of_lt (older task mem other isOther)
    · exact fun task mem other isOther => le_of_lt (older task mem other isOther)
  · intro before task after split
    have split : node.tasks = before ++ task :: after := split
    have ok := sound.tasksOk before task after split
    refine ⟨ok.term_le, ok.local_term, fun index current => .inr ?_, ?_⟩
    · by_cases covered : task.index ≤ snapshot.index
      · exact .passed covered (Nat.lt_succ_of_le covered)
      -- the snapshot is one of another log than that of the entry
      have off : snapshot.term ≠ history.lineage task.index task.logTerm snapshot.index := by
        intro same
        rcases ok.attested index current with attests | ⟨passed, -⟩ |
          ⟨entryIndex, entryTerm, positive, low, found, leads, unlike⟩
        · have old := sound.term_path attests.found kept (by omega) (by omega)
          exact sound.unmatched differs (same ▸ old)
        · omega
        · by_cases between : entryIndex ≤ snapshot.index
          · have followed := history.leader_lineage _ _ _ entryIndex led positive between
            rw [leads, same, history.lineage_trans _ _ _ _ between (by omega)] at followed
            exact unlike (some.inj followed)
          · have followed := history.leader_lineage _ _ _ snapshot.index leads (by omega) (by omega)
            rw [led] at followed
            have old := sound.term_path found kept (by omega) (by omega)
            exact sound.unmatched differs (some.inj followed ▸ old)
      exact .replaced snapshot.index snapshot.term (by omega) (by omega)
        ((onlySnapshot _ _).mpr ⟨rfl, rfl⟩) led off
    · -- no task holds the new snapshot
      rintro (none | ⟨holder, mem, isSnapshot⟩)
      · cases none
      have inTasks : holder ∈ node.tasks := by
        rw [split]
        rcases mem_append.mp mem with inBefore | isTask
        · exact mem_append_left _ inBefore
        · rw [mem_singleton.mp isTask]
          simp
      have := sound.snapshots.committed holder inTasks snapshot isSnapshot
      omega
  · intro high low highTerm lowTerm highFound lowFound _ _
    obtain ⟨rfl, rfl⟩ := (onlySnapshot _ _).mp highFound
    obtain ⟨rfl, rfl⟩ := (onlySnapshot _ _).mp lowFound
    exact history.lineage_self _ _

theorem step {input : LogInput} (lawful : input.Lawful history node)
    (done : node.step input = some next) : Sound history next := by
  cases step_cases done with
  | unchanged => exact sound
  | newTerm later => exact sound.newTerm later
  | appends added => exact sound.appendEntry lawful added
  | accepts added => exact sound.maybeAppend lawful added
  | commits _ advanced => exact sound.commitTo advanced
  | restores ahead differs => exact sound.restoreLog lawful ahead differs

end Sound

end

end LogNode

end RocksGraph.Eraft
