import Mathlib.Data.List.TakeWhile
import RocksGraph.Raft.LogAnswers

/-! The log as one plain list.

A plain log is a boundary and the entries after it. The plain log of a node is
made of the stored entries, overridden by the unstable ones; a pending snapshot
overrides all that is stored. Reads of the log are reads of the plain log, the
work of the storage does not show in it, and raft changes it by replacing its
end or by starting over at a snapshot. -/

set_option autoImplicit false

namespace RocksGraph.Eraft

open Foundation List Option SnapshotLog LogNode

structure PlainLog where
  boundary : Nat
  boundaryTerm : Nat
  entries : List Entry
  deriving DecidableEq, Repr

variable {index start : Nat}

namespace PlainLog

def lastIndex (plain : PlainLog) : Nat := plain.boundary + plain.entries.length

def entry (plain : PlainLog) (index : Nat) : Option Entry :=
  if plain.boundary < index then plain.entries[index - (plain.boundary + 1)]? else none

def term (plain : PlainLog) (index : Nat) : Option Nat :=
  if index = plain.boundary then some plain.boundaryTerm else (plain.entry index).map Entry.term

def range (plain : PlainLog) (lo hi : Nat) : List Entry :=
  (plain.entries.drop (lo - (plain.boundary + 1))).take (hi - lo)

/-- Keep what is before `start` and continue with other entries. -/
def replaceFrom (plain : PlainLog) (start : Nat) (entries : List Entry) : PlainLog :=
  { plain with entries := plain.entries.take (start - (plain.boundary + 1)) ++ entries }

/-- The entries of a leader: those that the log has stay, the first that differs replaces the end. -/
def accept (plain : PlainLog) (entries : List Entry) : PlainLog :=
  match entries.dropWhile fun entry => plain.term entry.index = some entry.term with
  | [] => plain
  | first :: rest => plain.replaceFrom first.index (first :: rest)

/-- The plain log of a node of this commit index and term after an input. -/
def step (plain : PlainLog) (committed term : Nat) : LogInput → PlainLog
  | .newTerm _ | .handleHeartbeat _ | .maybeCommit _ => plain
  | .appendEntry payloads =>
    plain.replaceFrom (plain.lastIndex + 1) (Raft.numberEntries term (plain.lastIndex + 1) payloads)
  | .handleAppendEntries index logTerm _ entries =>
    if index < committed ∨ plain.term index ≠ some logTerm then plain else plain.accept entries
  | .restore snapshot =>
    if snapshot.index ≤ committed ∨ plain.term snapshot.index = some snapshot.term then plain
    else ⟨snapshot.index, snapshot.term, []⟩

variable {plain : PlainLog}

theorem replaceFrom_nil (plain : PlainLog) : plain.replaceFrom (plain.lastIndex + 1) [] = plain := by
  have all : plain.lastIndex + 1 - (plain.boundary + 1) = plain.entries.length := by
    unfold lastIndex
    omega
  rw [replaceFrom, all, take_length, append_nil]

theorem accept_known {entries : List Entry} (known : ∀ entry ∈ entries, plain.term entry.index = some entry.term) :
    plain.accept entries = plain := by
  have none : (entries.dropWhile fun entry => plain.term entry.index = some entry.term) = [] :=
    dropWhile_eq_nil_iff.mpr fun entry mem => decide_eq_true (known entry mem)
  rw [accept, none]

theorem accept_new {before after : List Entry} {entry : Entry}
    (known : ∀ entry ∈ before, plain.term entry.index = some entry.term)
    (differs : plain.term entry.index ≠ some entry.term) :
    plain.accept (before ++ entry :: after) = plain.replaceFrom entry.index (entry :: after) := by
  have new : ((before ++ entry :: after).dropWhile fun entry => plain.term entry.index = some entry.term) =
      entry :: after := by
    rw [dropWhile_append_of_pos fun entry mem => decide_eq_true (known entry mem),
      dropWhile_cons_of_neg (by simpa using differs)]
  rw [accept, new]

theorem entry_above (above : plain.boundary < index) :
    plain.entry index = plain.entries[index - (plain.boundary + 1)]? := if_pos above

theorem replaceFrom_entry {entries : List Entry}
    (inside : start ≤ plain.lastIndex + 1) (below : index < start) :
    (plain.replaceFrom start entries).entry index = plain.entry index := by
  by_cases above : plain.boundary < index
  · rw [entry_above above, entry_above (show (plain.replaceFrom start entries).boundary < index from above)]
    simp only [replaceFrom, lastIndex] at *
    rw [getElem?_append_left (by rw [length_take]; omega), getElem?_take, if_pos (by omega)]
  · exact (if_neg above).trans (if_neg above).symm

end PlainLog

/-- The stored entries overridden by the unstable ones. -/
def SnapshotLog.plain (log : SnapshotLog) : PlainLog :=
  match log.snapshot with
  | some snapshot => ⟨snapshot.index, snapshot.term, log.base.unstable.entries⟩
  | none => ⟨log.base.storage.firstEntryIndex, log.base.storage.boundaryTerm,
      log.base.storage.entries.take (log.base.unstable.offset - log.base.storage.firstIndex) ++
        log.base.unstable.entries⟩

def RaftLog.plain (log : RaftLog) : PlainLog := ⟨log.boundary, log.storage.boundaryTerm, log.suffix⟩

theorem SnapshotLog.Reads.plain_eq {log : SnapshotLog} {storage : LogStore} (reads : log.Reads storage) :
    log.plain = (log.onto storage).plain := by
  unfold plain RaftLog.plain RaftLog.boundary RaftLog.suffix
  cases pending : log.snapshot with
  | some snapshot =>
    obtain ⟨first, term, offset⟩ := reads.ofSnapshot snapshot pending
    simp [onto, LogStore.firstIndex, first, term, offset]
  | none =>
    obtain ⟨first, term, same, -, -⟩ := reads.ofStorage pending
    simp only [onto, first, term]
    rw [show log.base.storage.firstIndex = storage.firstIndex by simp only [LogStore.firstIndex, first], same]

variable {log : RaftLog}

theorem RaftLog.Shaped.plain_lastIndex (shaped : log.Shaped) :
    log.plain.lastIndex = log.lastIndex := shaped.lastIndex_eq.symm

theorem RaftLog.Shaped.plain_term_iff (shaped : log.Shaped) {term : Nat} :
    log.plain.term index = some term ↔ log.term index = .ok term := by
  have boundary : log.plain.boundary = log.boundary := rfl
  rw [shaped.term_eq, suffixTerm, PlainLog.term, boundary]
  rcases lt_trichotomy index log.boundary with below | here | above
  · rw [if_neg (ne_of_lt below), if_pos below, PlainLog.entry, boundary, if_neg (Nat.not_lt_of_lt below)]
    simp
  · rw [if_pos here, if_neg (Nat.not_lt_of_le here.ge), if_pos here]
    simp [RaftLog.plain]
  · rw [if_neg (ne_of_gt above), if_neg (Nat.not_lt_of_lt above), if_neg (ne_of_gt above),
      PlainLog.entry_above (boundary ▸ above), boundary]
    simp only [RaftLog.plain]
    cases log.suffix[index - (log.boundary + 1)]? <;> simp

theorem RaftLog.Shaped.plain_term (shaped : log.Shaped) (above : log.boundary ≤ index)
    (inLog : index ≤ log.lastIndex) :
    ∃ term, log.plain.term index = some term ∧ log.term index = .ok term := by
  have last := shaped.lastIndex_eq
  have inside : ∃ term, log.plain.term index = some term := by
    by_cases atBoundary : index = log.boundary
    · exact ⟨_, if_pos atBoundary⟩
    · have after : log.plain.boundary < index := Nat.lt_of_le_of_ne above (Ne.symm atBoundary)
      have lookup : log.plain.entries[index - (log.plain.boundary + 1)]? =
          log.suffix[index - (log.boundary + 1)]? := rfl
      rw [PlainLog.term, if_neg (ne_of_gt after), PlainLog.entry_above after, lookup, getElem?_eq_getElem (by omega)]
      exact ⟨_, rfl⟩
  obtain ⟨term, found⟩ := inside
  exact ⟨term, found, shaped.plain_term_iff.mp found⟩

theorem RaftLog.Appended.plain_eq {next : RaftLog} {entries : List Entry}
    (appended : RaftLog.Appended log start entries next) : next.plain = log.plain.replaceFrom start entries := by
  have boundary : next.boundary = log.boundary := by rw [appended.frame]; rfl
  have term : next.storage.boundaryTerm = log.storage.boundaryTerm := by rw [appended.frame]
  unfold RaftLog.plain PlainLog.replaceFrom
  rw [appended.suffix, boundary, term]

namespace LogNode

variable {history : History} {node next : LogNode}

theorem Sound.plain_eq (sound : Sound history node) : node.log.plain = node.view.plain := sound.reads.plain_eq

theorem Sound.plain_lastIndex (sound : Sound history node) : node.log.plain.lastIndex = node.log.lastIndex := by
  rw [sound.plain_eq, sound.lastIndex_eq, sound.shaped.plain_lastIndex]

theorem Sound.matchTerm_iff (sound : Sound history node) {term : Nat} :
    node.log.matchTerm index term ↔ node.log.plain.term index = some term := by
  rw [sound.plain_eq, sound.shaped.plain_term_iff, SnapshotLog.matchTerm, sound.term_eq]
  cases node.view.term index <;> simp

/-- What an earlier run of the node has left in its storage: numbered entries
with the terms of one log. -/
structure StoreOk (history : History) (store : LogStore) : Prop where
  numbered : Consecutive store.firstIndex store.entries
  path : ∀ high low term found, store.term high = .ok term → store.term low = .ok found →
    1 ≤ low → low ≤ high → history.lineage high term low = found

/-- A node that was just created, or bootstrapped as the leader of the first term
would have done it. -/
inductive Started (history : History) : LogNode → Prop where
  | created {storage : LogStore} {maxSize applied : Nat} {async : Bool} {node : LogNode}
      (stored : StoreOk history storage) (done : LogNode.new storage maxSize applied async = some node) :
      Started history node
  | bootstrapped {storage : LogStore} {maxSize applied : Nat} {async : Bool} {node next : LogNode}
      {peers : List Payload} (stored : StoreOk history storage)
      (done : LogNode.new storage maxSize applied async = some node)
      (led : ∀ entry ∈ Raft.numberEntries 1 1 peers, history.leader 1 entry.index = some entry.term)
      (peersDone : node.bootstrap peers = some next) : Started history next

structure Fresh (storage : LogStore) (node : LogNode) : Prop where
  stored : node.log.base.storage = storage
  unstable : node.log.base.unstable = ⟨[], storage.lastIndex + 1, storage.lastIndex + 1⟩
  snapshot : node.log.snapshot = none
  inProgress : node.log.snapshotInProgress = false
  queue : node.queue = []
  answers : node.answers = []
  applies : node.applies = []
  kept : storage.firstEntryIndex ≤ node.log.base.applied
  applied : node.log.base.applied ≤ node.log.base.applying
  applying : node.log.base.applying = node.log.base.applied
  committed : node.log.base.applying ≤ node.log.base.committed
  committed_le : node.log.base.committed ≤ storage.lastIndex

variable {storage : LogStore} {log : SnapshotLog} {sizes : Sizes} {entries : List Entry}

theorem new_fresh {maxSize applied : Nat} {async : Bool}
    (done : LogNode.new storage maxSize applied async = some node) : Fresh storage node := by
  obtain ⟨log, loaded, done⟩ := bind_eq_some_iff.mp done
  obtain ⟨final, isFinal, rfl⟩ := map_eq_some_iff.mp done
  have positions : log = { SnapshotLog.new storage maxSize with base :=
        { (SnapshotLog.new storage maxSize).base with committed := log.base.committed } } ∧
      storage.firstEntryIndex ≤ log.base.committed ∧ log.base.committed ≤ storage.lastIndex := by
    unfold loadState at loaded
    split at loaded
    · cases loaded
      exact ⟨rfl, le_rfl, Nat.le_add_right _ _⟩
    · split at loaded
      · cases loaded
      rename_i inRange
      cases loaded
      rw [not_or, not_lt, not_lt] at inRange
      exact ⟨rfl, inRange.1, inRange.2⟩
  obtain ⟨isLog, low, high⟩ := positions
  split at isFinal
  · unfold SnapshotLog.appliedTo RaftLog.appliedTo at isFinal
    obtain ⟨base, moved, rfl⟩ := map_eq_some_iff.mp isFinal
    split at moved
    · cases moved
    rename_i inRange
    cases moved
    rw [isLog] at inRange ⊢
    simp only [SnapshotLog.new, RaftLog.new, LogStore.firstIndex] at inRange ⊢
    refine ⟨rfl, rfl, rfl, rfl, rfl, rfl, rfl, ?_, ?_, ?_, ?_, ?_⟩ <;> simp only <;> omega
  · cases isFinal
    rw [isLog]
    exact ⟨rfl, rfl, rfl, rfl, rfl, rfl, rfl, le_rfl, le_rfl, rfl, low, high⟩

theorem Fresh.eventual (fresh : Fresh storage node) : node.eventual = storage := by
  unfold LogNode.eventual nextSnapshot
  rw [fresh.queue, fresh.snapshot, fresh.inProgress, fresh.stored]
  rfl

theorem Fresh.sound (fresh : Fresh storage node) (stored : StoreOk history storage) :
    Sound history node := by
  have tasks : node.tasks = [] := by
    unfold tasks
    rw [fresh.answers, fresh.queue]
    rfl
  have viewStorage : node.view.storage = storage := fresh.eventual
  have viewTail : node.view.unstable = ⟨[], storage.lastIndex + 1, storage.lastIndex + 1⟩ := fresh.unstable
  have shaped : node.view.Shaped := by
    have first : storage.firstIndex ≤ storage.lastIndex + 1 := by
      simp only [LogStore.firstIndex, LogStore.lastIndex]
      omega
    refine ⟨?_, ?_, ?_, ?_, ?_, ?_, viewStorage ▸ stored.numbered, viewTail ▸ Consecutive.nil⟩
    · rwa [viewTail, viewStorage]
    · rw [viewTail, viewStorage]
    · rw [viewTail, viewStorage]
      exact fun _ => rfl
    · rw [viewTail]
    · rw [viewTail]
      exact le_rfl
    · rw [viewTail, take_nil]
      exact nil_prefix
  have last : node.view.lastIndex = storage.lastIndex := by
    have := shaped.lastIndex_unstable
    rw [viewTail] at this
    exact Nat.succ.inj this
  have sameTerm {index term : Nat} (found : node.view.term index = .ok term) : storage.term index = .ok term := by
    rw [RaftLog.term_stored ?_ (shaped.term_inside found).2, viewStorage] at found
    · exact found
    rw [viewTail]
    have := (shaped.term_inside found).2
    simp only
    omega
  refine ⟨shaped, ?_, ?_, ?_, ?_, ?_, ?_, ?_, ?_⟩
  · rw [fresh.queue]
    trivial
  · rw [fresh.snapshot]
    simp
  · constructor <;> simp [tasks, fresh.snapshot]
  · intro before task after split
    rw [tasks] at split
    simp at split
  · exact fun high low term found highFound lowFound =>
      stored.path high low term found (sameTerm highFound) (sameTerm lowFound)
  · exact fun _ => by rw [fresh.unstable]
  · rw [fresh.eventual]
    have := fresh.kept
    have := fresh.applied
    have := fresh.committed
    omega
  · rw [last]
    exact fresh.committed_le

theorem plain_congr {next : SnapshotLog} (snapshot : next.snapshot = log.snapshot)
    (storage : next.base.storage = log.base.storage)
    (offset : next.base.unstable.offset = log.base.unstable.offset)
    (entries : next.base.unstable.entries = log.base.unstable.entries) : next.plain = log.plain := by
  unfold plain
  rw [snapshot, storage, offset, entries]

theorem acceptInProgress_plain (log : SnapshotLog) : log.acceptInProgress.plain = log.plain := by
  refine plain_congr rfl rfl ?_ ?_
  · simp only [acceptInProgress, RaftLog.acceptUnstable, Unstable.acceptInProgress]
    split <;> rfl
  · simp only [acceptInProgress, RaftLog.acceptUnstable, Unstable.acceptInProgress]
    split <;> rfl

theorem commitTo_plain {tocommit : Nat} {next : SnapshotLog} (done : log.commitTo tocommit = some next) :
    next.plain = log.plain := by
  rw [commitTo_frame done]
  exact plain_congr rfl rfl rfl rfl

theorem appliedTo_plain {size : Nat} (done : node.appliedTo index size = some next) :
    next.log.plain = node.log.plain := by
  unfold appliedTo SnapshotLog.appliedTo RaftLog.appliedTo at done
  obtain ⟨log, applied, rfl⟩ := map_eq_some_iff.mp done
  split at applied
  · cases applied
  · cases applied
    exact plain_congr rfl rfl rfl rfl

theorem Accepted.plain {ready : LogReady} (accepted : Accepted sizes node ready next) :
    next.log.plain = node.log.plain := by
  obtain ⟨snapshot, -, storage, unstable, -⟩ := accepted.log_same
  rw [← acceptInProgress_plain node.log]
  exact plain_congr snapshot storage (by rw [unstable]) (by rw [unstable])

theorem Sound.answerAppend_plain (sound : Sound history node) (done : node.answerAppend = some next) :
    next.log.plain = node.log.plain := by
  obtain ⟨task, rest, log, isAnswers, tail, outcome⟩ := sound.answerAppend_cases done
  have answered := sound.answered isAnswers tail
  have same : log.plain = node.log.plain := by
    have eventual : ({ node with log, answers := rest } : LogNode).eventual = node.eventual := by
      unfold eventual
      simp only [tail.nextSnapshot, tail.storage]
    have view : log.plain = (log.onto node.eventual).plain := by
      rw [← eventual]
      exact answered.plain_eq
    rw [view, sound.plain_eq]
    unfold RaftLog.plain
    rw [(tail.entries sound.shaped).2.2.1]
    rfl
  rcases outcome with ⟨-, rfl⟩ | ⟨snapshot, -, applied⟩
  · exact same
  · rw [appliedTo_plain applied, same]

theorem answerApply_plain (done : node.answerApply sizes = some next) :
    next.log.plain = node.log.plain := by
  unfold answerApply at done
  split at done
  · cases done
  simp only [stepApplyResp] at done
  split at done
  · exact (appliedTo_plain done).trans rfl
  · obtain rfl := some.inj done
    rfl

section

variable (sound : Sound history node)
include sound

theorem Sound.storage_plain {event : LogEvent}
    {ready : Option LogReady} (ofStorage : ∀ input, event ≠ .step input)
    (done : node.next sizes event = some (next, ready)) : next.log.plain = node.log.plain := by
  apply next_cases (motive := fun result _ => result.log.plain = node.log.plain) done
  · exact fun input result isStep => absurd isStep (ofStorage input)
  · exact fun result handed accepted => accepted.plain
  · intro result written
    rw [(sound.writeNext written).plain_eq, sound.plain_eq]
    obtain ⟨_, _, -, -, eventual, rfl⟩ := writeNext_cases written
    rw [LogNode.view, eventual]
    rfl
  · intro middle either
    have first : middle.log.plain = node.log.plain := by
      rcases either with rfl | answered
      · rfl
      · exact sound.answerAppend_plain answered
    exact ⟨first, fun result answered => (answerApply_plain answered).trans first⟩

theorem Sound.append_plain (nonempty : entries ≠ [])
    (consecutive : Consecutive start entries) (above : node.log.base.committed < start)
    (done : node.log.append entries = some log) :
    start ≤ node.log.plain.lastIndex + 1 ∧ log.plain = node.log.plain.replaceFrom start entries := by
  obtain ⟨reads, appended⟩ := sound.reads.append sound.shaped sound.kept nonempty consecutive above done
  have boundary : node.view.boundary < start := lt_of_le_of_lt sound.kept above
  have length := appended.start_le nonempty consecutive
  have last := sound.shaped.plain_lastIndex
  have total := sound.shaped.lastIndex_eq
  rw [reads.plain_eq, appended.plain_eq, sound.plain_eq]
  refine ⟨?_, rfl⟩
  rw [length_take] at length
  have same : (node.log.onto node.eventual) = node.view := rfl
  rw [same] at length
  omega

theorem Sound.appendNew_plain (consecutive : Consecutive (index + 1) entries)
    (done : node.log.appendNew index entries = some log) :
    log.plain = node.log.plain.accept entries ∧
      ∀ position ≤ node.log.base.committed, log.plain.entry position = node.log.plain.entry position := by
  rcases appendNew_cases consecutive done with
    ⟨rfl, all⟩ | ⟨before, entry, after, rfl, uncommitted, differs, known, appended⟩
  · exact ⟨(PlainLog.accept_known fun entry mem => sound.matchTerm_iff.mp (all entry mem)).symm, fun _ _ => rfl⟩
  have position : entry.index = index + 1 + before.length := consecutive before.length entry (by simp)
  have numbered : Consecutive entry.index (entry :: after) := by
    have := consecutive.drop before.length
    rwa [drop_left, ← position] at this
  obtain ⟨inside, replaced⟩ := sound.append_plain (cons_ne_nil _ _) numbered uncommitted appended
  constructor
  · have unlike := mt sound.matchTerm_iff.mpr (by simpa using differs)
    rw [replaced, PlainLog.accept_new (fun entry mem => sound.matchTerm_iff.mp (known entry mem)) unlike]
  · intro position committed
    rw [replaced, PlainLog.replaceFrom_entry inside (by omega)]

/-- A message that does not join the log leaves it, and one that does is accepted. -/
theorem Sound.maybeAppend_plain {logTerm commit : Nat}
    {lastNew : Option Nat} (consecutive : Consecutive (index + 1) entries)
    (done : node.log.maybeAppend index logTerm commit entries = some (log, lastNew)) :
    log.plain = (if node.log.plain.term index = some logTerm then node.log.plain.accept entries else node.log.plain) ∧
      ∀ position ≤ node.log.base.committed, log.plain.entry position = node.log.plain.entry position := by
  rcases SnapshotLog.maybeAppend_cases done with ⟨rfl, differs⟩ | ⟨middle, joins, appended, advanced⟩
  · have apart := mt sound.matchTerm_iff.mpr (by simpa using differs)
    exact ⟨(if_neg apart).symm, fun _ _ => rfl⟩
  · rw [commitTo_plain advanced, if_pos (sound.matchTerm_iff.mp joins)]
    exact sound.appendNew_plain consecutive appended

end

/-- An input does to the log of the node what it does to its plain log, and only a snapshot changes what is committed. -/
structure PlainStep (node : LogNode) (input : LogInput) (plain : PlainLog) : Prop where
  stepped : plain = node.log.plain.step node.log.base.committed node.term input
  committed : (∀ snapshot, input ≠ .restore snapshot) →
    ∀ position ≤ node.log.base.committed, plain.entry position = node.log.plain.entry position

theorem PlainStep.of_same {input : LogInput} {plain : PlainLog} (same : plain = node.log.plain)
    (quiet : node.log.plain.step node.log.base.committed node.term input = node.log.plain) :
    PlainStep node input plain :=
  ⟨same.trans quiet.symm, fun _ _ _ => by rw [same]⟩

theorem Sound.appendEntry_plain (sound : Sound history node) {payloads : List Payload}
    (added : node.log.append (Raft.numberEntries node.term (node.log.lastIndex + 1) payloads) = some log) :
    PlainStep node (.appendEntry payloads) log.plain := by
  have last := sound.plain_lastIndex
  by_cases empty : Raft.numberEntries node.term (node.log.lastIndex + 1) payloads = []
  · rw [empty] at added
    cases added
    refine .of_same rfl ?_
    rw [PlainLog.step, last, empty, ← last, PlainLog.replaceFrom_nil]
  · have numbered := consecutive_numberEntries node.term payloads (node.log.lastIndex + 1)
    have uncommitted : node.log.base.committed < node.log.lastIndex + 1 := by
      rw [sound.lastIndex_eq]
      exact Nat.lt_succ_of_le sound.committed_le
    obtain ⟨inside, replaced⟩ := sound.append_plain empty numbered uncommitted added
    refine ⟨by rw [replaced, PlainLog.step, last], fun _ position committed => ?_⟩
    rw [replaced, PlainLog.replaceFrom_entry inside (by omega)]

theorem Sound.restore_plain (sound : Sound history node) {snapshot : SnapshotMeta}
    (done : node.restore snapshot = some next) : PlainStep node (.restore snapshot) next.log.plain := by
  unfold LogNode.restore at done
  split at done
  next old =>
    cases done
    exact .of_same rfl (if_pos (.inl old))
  next ahead =>
    split at done
    next known =>
      obtain ⟨log, advanced, rfl⟩ := map_eq_some_iff.mp done
      exact .of_same (commitTo_plain advanced) (if_pos (.inr (sound.matchTerm_iff.mp known)))
    next differs =>
      cases done
      have unlike := mt sound.matchTerm_iff.mpr differs
      refine ⟨(if_neg (not_or.mpr ⟨ahead, unlike⟩)).symm, fun other => absurd rfl (other snapshot)⟩

theorem Sound.step_plain (sound : Sound history node) {input : LogInput}
    (lawful : input.Lawful history node) (done : node.step input = some next) :
    PlainStep node input next.log.plain := by
  cases input with
  | newTerm term =>
    obtain ⟨-, done⟩ := ite_none_right_eq_some.mp done
    cases done
    exact .of_same rfl rfl
  | appendEntry payloads =>
    obtain ⟨log, added, rfl⟩ := map_eq_some_iff.mp done
    exact sound.appendEntry_plain added
  | handleAppendEntries index logTerm commit entries =>
    simp only [LogNode.step] at done
    split at done
    next old =>
      cases done
      exact .of_same rfl (if_pos (.inl old))
    next ahead =>
      obtain ⟨result, added, rfl⟩ := map_eq_some_iff.mp done
      obtain ⟨accepted, kept⟩ := sound.maybeAppend_plain lawful.1 added
      refine ⟨accepted.trans ?_, fun _ => kept⟩
      simp only [PlainLog.step, ahead, false_or, ite_not]
  | handleHeartbeat commit =>
    obtain ⟨log, advanced, rfl⟩ := map_eq_some_iff.mp done
    exact .of_same (commitTo_plain advanced) rfl
  | maybeCommit index =>
    obtain ⟨log, advanced, rfl⟩ := map_eq_some_iff.mp done
    unfold SnapshotLog.maybeCommit at advanced
    split at advanced
    · exact .of_same (commitTo_plain advanced) rfl
    · cases advanced
      exact .of_same rfl rfl
  | restore snapshot => exact sound.restore_plain done

/-- The log of a node is a plain list: reads give its terms and, limited by size,
its entries; accepting entries keeps what is committed; the storage does not
change it, and each input of raft changes it as it changes a plain list. -/
structure PlainList (history : History) (sizes : Sizes) (node : LogNode) : Prop where
  numbered : Consecutive (node.log.plain.boundary + 1) node.log.plain.entries
  first : node.log.firstIndex = node.log.plain.boundary + 1
  last : node.log.lastIndex = node.log.plain.lastIndex
  term : ∀ index, node.log.plain.boundary ≤ index → index ≤ node.log.lastIndex →
    ∃ term, node.log.plain.term index = some term ∧ node.log.term index = .ok term
  slice : ∀ lo hi maxSize, node.log.firstIndex ≤ lo → lo ≤ hi → hi ≤ node.log.lastIndex + 1 →
    ∃ entries, node.log.slice sizes lo hi maxSize = some (.ok entries) ∧
      LongestWithin sizes maxSize (node.log.plain.range lo hi) entries
  maybeAppend : ∀ index logTerm commit entries log lastNew, Consecutive (index + 1) entries →
    node.log.maybeAppend index logTerm commit entries = some (log, lastNew) →
    ∀ position ≤ node.log.base.committed, log.plain.entry position = node.log.plain.entry position
  storage : ∀ event next ready, (∀ input, event ≠ .step input) →
    node.next sizes event = some (next, ready) → next.log.plain = node.log.plain
  step : ∀ input next, input.Lawful history node → node.step input = some next →
    PlainStep node input next.log.plain

theorem Sound.plainList (sound : Sound history node)
    (positive : ∀ entry, 0 < entry.index → 0 < sizes.entry entry) : PlainList history sizes node := by
  have plain := sound.plain_eq
  refine ⟨?_, ?_, ?_, ?_, ?_, ?_, fun _ _ _ ofStorage => sound.storage_plain ofStorage,
    fun _ _ lawful => sound.step_plain lawful⟩
  · rw [plain]
    exact sound.shaped.consecutive
  · rw [sound.reads.firstIndex_eq, plain]
    rfl
  · exact sound.plain_lastIndex.symm
  · intro index above inLog
    rw [plain] at above ⊢
    rw [sound.lastIndex_eq] at inLog
    rw [sound.term_eq]
    exact sound.shaped.plain_term above inLog
  · intro lo hi maxSize above ordered within
    rw [sound.reads.firstIndex_eq] at above
    rw [sound.lastIndex_eq] at within
    rw [sound.reads.slice_eq sound.shaped, plain]
    exact ⟨_, sound.shaped.slice_eq positive above ordered within, limitSize_longest sizes maxSize _⟩
  · exact fun _ _ _ _ _ _ consecutive done => (sound.maybeAppend_plain consecutive done).2

/-! ## Runs -/

theorem Fresh.bootstrap (fresh : Fresh storage node) (stored : StoreOk history storage)
    {peers : List Payload}
    (led : ∀ entry ∈ Raft.numberEntries 1 1 peers, history.leader 1 entry.index = some entry.term)
    (done : node.bootstrap peers = some next) : Sound history next := by
  unfold LogNode.bootstrap at done
  split at done
  · cases done
    exact fresh.sound stored
  next allowed =>
    rw [not_or, not_not, fresh.stored] at allowed
    obtain ⟨log, appended, done⟩ := bind_eq_some_iff.mp done
    cases done
    have inFirstTerm : Fresh storage { node with term := 1 } := by
      obtain ⟨stored, unstable, snapshot, inProgress, queue, answers, applies, kept, applied, applying,
        committed, committed_le⟩ := fresh
      exact ⟨stored, unstable, snapshot, inProgress, queue, answers, applies, kept, applied, applying,
        committed, committed_le⟩
    have sound := inFirstTerm.sound stored
    have nonempty : Raft.numberEntries 1 1 peers ≠ [] := by
      intro empty
      have length := length_numberEntries 1 peers 1
      rw [empty] at length
      exact allowed.1 (isEmpty_iff.mpr (length_eq_zero_iff.mp length.symm))
    have last : ({ node with term := 1 } : LogNode).view.lastIndex = 0 := by
      have total := sound.shaped.lastIndex_unstable
      have tail : ({ node with term := 1 } : LogNode).view.unstable =
        ⟨[], storage.lastIndex + 1, storage.lastIndex + 1⟩ := fresh.unstable
      rw [tail, allowed.2] at total
      exact Nat.succ.inj total
    have uncommitted : node.log.base.committed < 1 := by
      have := fresh.committed_le
      omega
    have appendedSound := sound.append nonempty (consecutive_numberEntries 1 peers 1) uncommitted appended led
      (fun positive => by omega) (fun term found => by
        have := (sound.shaped.term_inside found).2
        omega)
    refine appendedSound.of_same ⟨rfl, rfl, rfl, rfl, rfl, rfl⟩ rfl ?_ ?_
    · obtain ⟨-, -, frame⟩ := append_frame appended
      rw [frame]
      simp only
      omega
    · have whole := (sound.append_plain nonempty (consecutive_numberEntries 1 peers 1) uncommitted appended).2
      have total := appendedSound.shaped.plain_lastIndex
      rw [← appendedSound.plain_eq] at total
      rw [← total]
      simp only [whole, PlainLog.lastIndex, PlainLog.replaceFrom, length_append, length_numberEntries]
      omega

theorem Started.sound (started : Started history node) : Sound history node := by
  cases started with
  | created stored done => exact (new_fresh done).sound stored
  | bootstrapped stored done led peersDone => exact (new_fresh done).bootstrap stored led peersDone

end LogNode

structure LogRun where
  node : LogNode
  readies : List LogReady
  deriving DecidableEq, Repr

namespace LogRun

def next (sizes : Sizes) (run : LogRun) (event : LogEvent) : Option LogRun :=
  (run.node.next sizes event).map fun result => ⟨result.1, run.readies ++ result.2.toList⟩

def Lawful (history : History) (run : LogRun) (event : LogEvent) : Prop := event.Lawful history run.node

instance (history : History) (run : LogRun) (event : LogEvent) : Decidable (Lawful history run event) :=
  inferInstanceAs (Decidable (event.Lawful history run.node))

def Reaches (history : History) (sizes : Sizes) (node : LogNode) (events : List LogEvent) (run : LogRun) :
    Prop := Runs (next sizes) (Lawful history) ⟨node, []⟩ events run

variable {history : History} {sizes : Sizes}

theorem Reaches.sound {node : LogNode} {events : List LogEvent} {run : LogRun}
    (started : LogNode.Started history node) (reaches : Reaches history sizes node events run) :
    LogNode.Sound history run.node := by
  refine Runs.invariant reaches (fun run => LogNode.Sound history run.node) started.sound ?_
  intro run event next sound lawful taken
  obtain ⟨⟨result, ready⟩, done, rfl⟩ := map_eq_some_iff.mp taken
  exact sound.event lawful done

/-- In every run the log is one plain list. An entry with a positive index, which
protobuf encodes, has a positive size. -/
theorem plainList_of_reaches (positive : ∀ entry, 0 < entry.index → 0 < sizes.entry entry) {node : LogNode}
    (started : LogNode.Started history node) {events : List LogEvent} {run : LogRun}
    (reaches : Reaches history sizes node events run) : LogNode.PlainList history sizes run.node :=
  (reaches.sound started).plainList positive

def firstLeader : History where
  lineage index term low := if index ≤ low then term else 1
  leader term _ := if term = 1 then some 1 else none
  lineage_self _ _ := if_pos (Nat.le_refl _)
  lineage_trans index term middle low le le' := by
    by_cases equal : index ≤ low
    · rw [if_pos (by omega), if_pos (by omega), if_pos equal]
    by_cases last : middle ≤ low
    · rw [if_pos last, if_neg (by omega), if_neg equal]
    · rw [if_neg last, if_neg equal]
  leader_lineage term index found low led _ _ := by
    split at led
    next first =>
      obtain rfl := Option.some.inj led
      rw [if_pos first, ite_self]
    · cases led
  leader_zero _ := rfl

def unitSizes : Sizes := ⟨fun _ => 1, fun _ => 0⟩

def emptyReplica (async : Bool) : Option LogNode := LogNode.new .created 2 0 async

theorem storeOk_created (history : History) : LogNode.StoreOk history .created := by
  refine ⟨Consecutive.nil, ?_⟩
  intro high low term found _ lowFound positive _
  have missing : LogStore.created.term low = .error .unavailable := by
    unfold LogStore.term
    rw [if_neg (show low ≠ LogStore.created.firstEntryIndex from ne_of_gt positive)]
    rfl
  rw [missing] at lowFound
  cases lowFound

def replicatedEntry (index : Nat) : Entry := ⟨1, index, .empty⟩

/-- Two appends; the second arrives while the entries of the first are written. -/
def appendsDuringWrite : List LogEvent :=
  [.step (.newTerm 1), .step (.handleAppendEntries 0 0 1 [replicatedEntry 1, replicatedEntry 2]), .ready, .write,
    .step (.handleAppendEntries 2 1 2 [replicatedEntry 3]), .advance]

theorem plainList_of_reaches_duringWrite : ∃ node run, LogNode.Started firstLeader node ∧
    Reaches firstLeader unitSizes node appendsDuringWrite run ∧
    LogNode.PlainList firstLeader unitSizes run.node ∧
    run.node.log.plain.entries = [replicatedEntry 1, replicatedEntry 2, replicatedEntry 3] ∧
    run.node.log.base.unstable.offset = 3 := by
  obtain ⟨node, isNode⟩ : ∃ node, emptyReplica false = some node := ⟨_, rfl⟩
  obtain ⟨run, isRun⟩ : ∃ run, execute (next unitSizes) (Lawful firstLeader) ⟨node, []⟩ appendsDuringWrite =
      some run := by
    cases isNode
    exact ⟨_, rfl⟩
  have started : LogNode.Started firstLeader node := .created (storeOk_created _) isNode
  have reaches : Reaches firstLeader unitSizes node appendsDuringWrite run := runs_of_execute isRun
  refine ⟨node, run, started, reaches, plainList_of_reaches (fun _ _ => Nat.one_pos) started reaches, ?_, ?_⟩
  · cases isNode
    cases isRun
    rfl
  · cases isNode
    cases isRun
    rfl

end LogRun

end RocksGraph.Eraft
