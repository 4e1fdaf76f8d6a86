import RocksGraph.Foundation.Responder
import RocksGraph.Foundation.Table
import RocksGraph.Raft.LogSpec

/-! The log store over its database (`raft_log_store.cc`) and the storage of the
raft library in memory (`storage.h`).

Both answer the calls of the raft library. The store keeps the bounds of the log
outside the database and finds them again when it is opened; the one in memory
keeps a vector whose first entry is the boundary. A key of the log is the index
in big-endian order and stands here as the index itself. Indexes are below
`2 ^ 64 - 1`, so that no sum of an index and a length wraps around. -/

set_option autoImplicit false

namespace RocksGraph.Eraft

open Foundation List Option

/-- What is asked of a storage. `reopen` closes it and opens it again. -/
inductive StorageCall where
  | append (entries : List Entry)
  | setHardState (hardState : HardState)
  | compact (index : Nat)
  | reopen
  | entries (lo hi maxSize : Nat)
  | term (index : Nat)
  | firstIndex
  | lastIndex
  | snapshot
  deriving DecidableEq, Repr

/-- A snapshot that is missing is `ErrSnapshotTemporarilyUnavailable`. -/
inductive StorageAnswer where
  | done
  | error (error : LogError)
  | entries (entries : List Entry)
  | number (value : Nat)
  | snapshot (snapshot : Option SnapshotMeta)
  deriving DecidableEq, Repr

def StorageAnswer.ofExcept {α : Type} (answer : α → StorageAnswer) : Except LogError α → StorageAnswer
  | .ok value => answer value
  | .error failure => .error failure

structure LogDatabase where
  log : Table Nat Entry
  hardState : Option HardState

inductive Write where
  | putEntry (key : Nat) (entry : Entry)
  | deleteEntry (key : Nat)
  | putHardState (hardState : HardState)
  deriving DecidableEq, Repr

namespace LogDatabase

def created : LogDatabase := ⟨.empty, none⟩

def write (db : LogDatabase) : Write → LogDatabase
  | .putEntry key entry => { db with log := db.log.put key entry }
  | .deleteEntry key => { db with log := db.log.erase key }
  | .putHardState hardState => { db with hardState := some hardState }

end LogDatabase

structure RaftLogStorage where
  db : LogDatabase
  firstEntryIndex : Nat
  lastEntryIndex : Nat
  hardState : HardState

namespace RaftLogStorage

def opened (db : LogDatabase) : RaftLogStorage := ⟨db, 0, 0, .empty⟩

variable (storage : RaftLogStorage)

def firstIndex : Nat := storage.firstEntryIndex + 1

def lastIndex : Nat := storage.lastEntryIndex

def writeBatch (batch : List Write) : RaftLogStorage :=
  { storage with db := batch.foldl LogDatabase.write storage.db }

/-- `Init` also tells whether there are logs. A database without a hard state is
new and gets the dummy entry. -/
def init : Option (RaftLogStorage × Bool) :=
  match storage.db.hardState with
  | none => some (storage.writeBatch [.putEntry 0 ⟨0, 0, .empty⟩, .putHardState .empty], false)
  | some hardState => do
    let first ← storage.db.log.entries.head?
    let last ← storage.db.log.entries.getLast?
    return ({ storage with
      firstEntryIndex := first.2.index
      lastEntryIndex := last.2.index
      hardState := hardState }, 0 < last.2.index)

/-- `DeleteRange` takes the keys before the index. -/
def compact (index : Nat) : Option RaftLogStorage :=
  if index ≥ storage.lastEntryIndex then none
  else some { storage with
    db := { storage.db with log := storage.db.log.filter fun key _ => index ≤ key }
    firstEntryIndex := index }

def setHardState (hardState : HardState) (batch : List Write) : List Write :=
  batch ++ [.putHardState hardState]

/-- The entries after the compacted ones are put into the batch, and those of the
old log behind them are deleted. -/
def append (entries : List Entry) (batch : List Write) : RaftLogStorage × List Write :=
  match entries with
  | [] => (storage, batch)
  | head :: _ =>
    let first := storage.firstIndex
    let last := head.index + entries.length - 1
    if last < first then (storage, batch)
    else
      let kept := entries.drop (first - head.index)
      let lastEntryIndex := kept.foldl (fun _ entry => entry.index) storage.lastEntryIndex
      let deleted := List.range' (lastEntryIndex + 1) (storage.lastEntryIndex - lastEntryIndex)
      ({ storage with lastEntryIndex },
        batch ++ kept.map (fun entry => .putEntry entry.index entry) ++ deleted.map .deleteEntry)

/-- The loop of `Entries` over what the iterator gives. -/
def collect (sizes : Sizes) (hi maxSize : Nat) :
    List (Nat × Entry) → Nat → Nat → List Entry → Option (List Entry)
  | [], _, _, found => some found
  | (key, entry) :: rest, nextIndex, totalSize, found =>
    if hi ≤ key then some found
    else if entry.index ≠ nextIndex then none
    else if found ≠ [] ∧ totalSize + sizes.entry entry > maxSize then some found
    else collect sizes hi maxSize rest (nextIndex + 1) (totalSize + sizes.entry entry) (found ++ [entry])

def entries (sizes : Sizes) (storage : RaftLogStorage) (lo hi maxSize : Nat) :
    Option (Except LogError (List Entry)) :=
  if lo ≤ storage.firstEntryIndex then some (.error .compacted)
  else if hi > storage.lastIndex + 1 then none
  else if storage.lastEntryIndex = storage.firstEntryIndex then some (.error .unavailable)
  else
    match collect sizes hi maxSize (storage.db.log.entries.dropWhile (·.1 < lo)) lo 0 [] with
    | none | some [] => none
    | some found => some (.ok found)

def term (storage : RaftLogStorage) (index : Nat) : Option (Except LogError Nat) :=
  if index < storage.firstEntryIndex then some (.error .compacted)
  else if index > storage.lastEntryIndex then some (.error .unavailable)
  else (storage.db.log.get index).map fun entry => .ok entry.term

/-- `Snapshot`: the boundary, which triggers the transfer. -/
def snapshot : Option (Except LogError (Option SnapshotMeta)) :=
  if storage.firstEntryIndex = 0 then some (.ok none)
  else (storage.term storage.firstEntryIndex).map fun term =>
    term.map fun term => some ⟨storage.firstEntryIndex, term⟩

/-- Every batch is written at once, as the driver does. -/
def respond (sizes : Sizes) (storage : RaftLogStorage) : StorageCall → Option (RaftLogStorage × StorageAnswer)
  | .append entries =>
    let (storage, batch) := storage.append entries []
    some (storage.writeBatch batch, .done)
  | .setHardState hardState => some (storage.writeBatch (setHardState hardState []), .done)
  | .compact index => (storage.compact index).map fun next => (next, .done)
  | .reopen => (opened storage.db).init.map fun next => (next.1, .done)
  | .entries lo hi maxSize => (storage.entries sizes lo hi maxSize).map fun found => (storage, .ofExcept .entries found)
  | .term index => (storage.term index).map fun term => (storage, .ofExcept .number term)
  | .firstIndex => some (storage, .number storage.firstIndex)
  | .lastIndex => some (storage, .number storage.lastIndex)
  | .snapshot => storage.snapshot.map fun snapshot => (storage, .ofExcept .snapshot snapshot)

def created : RaftLogStorage :=
  (opened .created).writeBatch [.putEntry 0 ⟨0, 0, .empty⟩, .putHardState .empty]

end RaftLogStorage

/-- The first of the entries is the boundary. -/
structure MemoryStorage where
  hardState : HardState
  snapshot : SnapshotMeta
  ents : List Entry
  nonempty : ents ≠ []

namespace MemoryStorage

def new : MemoryStorage := ⟨.empty, ⟨0, 0⟩, [⟨0, 0, .empty⟩], by simp⟩

variable (storage : MemoryStorage)

def offset : Nat := (storage.ents.head storage.nonempty).index

def lastIndex : Nat := storage.offset + storage.ents.length - 1

def firstIndex : Nat := storage.offset + 1

/-- `Entries`. A range that ends before it starts is no vector, and the process ends. -/
def entries (sizes : Sizes) (storage : MemoryStorage) (lo hi maxSize : Nat) :
    Option (Except LogError (List Entry)) :=
  if lo ≤ storage.offset then some (.error .compacted)
  else if hi > storage.lastIndex + 1 then none
  else if storage.ents.length = 1 then some (.error .unavailable)
  else if hi < lo then none
  else some (.ok (limitSize sizes maxSize ((storage.ents.drop (lo - storage.offset)).take (hi - lo))))

def term (storage : MemoryStorage) (index : Nat) : Except LogError Nat :=
  if index < storage.offset then .error .compacted
  else match storage.ents[index - storage.offset]? with
    | none => .error .unavailable
    | some entry => .ok entry.term

def compact (index : Nat) : Option (Except LogError MemoryStorage) :=
  if index ≤ storage.offset then some (.error .compacted)
  else if inside : index > storage.lastIndex then none
  else some (.ok { storage with
    ents := storage.ents.drop (index - storage.offset)
    nonempty := by
      have := length_pos_of_ne_nil storage.nonempty
      unfold lastIndex at inside
      rw [ne_eq, drop_eq_nil_iff]
      omega })

def append (entries : List Entry) : Option MemoryStorage :=
  match entries with
  | [] => some storage
  | head :: _ =>
    let first := storage.firstIndex
    let last := head.index + entries.length - 1
    if last < first then some storage
    else
      match entries.drop (first - head.index) with
      | [] => none
      | entry :: rest =>
        let position := entry.index - storage.offset
        if position > storage.ents.length then none
        else some { storage with
          ents := storage.ents.take position ++ entry :: rest
          nonempty := by simp }

def respond (sizes : Sizes) (storage : MemoryStorage) : StorageCall → Option (MemoryStorage × StorageAnswer)
  | .append entries => (storage.append entries).map fun next => (next, .done)
  | .setHardState hardState => some ({ storage with hardState }, .done)
  | .compact index => (storage.compact index).map fun
    | .ok next => (next, .done)
    | .error error => (storage, .error error)
  | .reopen => some (storage, .done)
  | .entries lo hi maxSize => (storage.entries sizes lo hi maxSize).map fun found => (storage, .ofExcept .entries found)
  | .term index => some (storage, .ofExcept .number (storage.term index))
  | .firstIndex => some (storage, .number storage.firstIndex)
  | .lastIndex => some (storage, .number storage.lastIndex)
  | .snapshot => some (storage, .snapshot (some storage.snapshot))

def boundary (storage : MemoryStorage) : Option SnapshotMeta :=
  if storage.offset = 0 then none
  else some ⟨storage.offset, (storage.ents.head storage.nonempty).term⟩

/-- The storage in memory when it is asked for the boundary instead of for the
snapshot that the application made. -/
def respondBoundary (sizes : Sizes) (storage : MemoryStorage) : StorageCall → Option (MemoryStorage × StorageAnswer)
  | .snapshot => some (storage, .snapshot storage.boundary)
  | call => storage.respond sizes call

/-- Calls to which both storages answer alike: entries that continue the log or
overwrite its end, a compaction that moves the boundary and leaves an entry behind
it, and a range that has an entry. -/
def covered : StorageCall → Prop
  | .append entries => ∃ start ≤ storage.lastIndex + 1, Consecutive start entries
  | .compact index => storage.offset < index ∧ index ≠ storage.lastIndex
  | .entries lo hi _ =>
    storage.offset < lo → hi ≤ storage.lastIndex + 1 → storage.ents.length ≠ 1 → lo < hi
  | _ => True

instance (call : StorageCall) : Decidable (storage.covered call) := by
  unfold covered
  split <;> infer_instance

end MemoryStorage

def keyed (entries : List Entry) : List (Nat × Entry) := entries.map fun entry => (entry.index, entry)

variable {start lo : Nat}

theorem find_keyed {entries : List Entry} (consecutive : Consecutive start entries) (key : Nat) :
    Table.find key (keyed entries) = if start ≤ key then entries[key - start]? else none := by
  induction entries generalizing start with
  | nil => simp [keyed, Table.find]
  | cons entry rest ih =>
    have index := consecutive.head
    rw [keyed, map_cons, Table.find]
    split
    next same =>
      simp [same, index]
    · have later := ih consecutive.tail
      rw [keyed] at later
      rw [later]
      by_cases below : start ≤ key
      · have above : start + 1 ≤ key := by omega
        have position : key - start = key - (start + 1) + 1 := by omega
        rw [if_pos below, if_pos above, position, getElem?_cons_succ]
      · rw [if_neg below, if_neg (by omega)]

theorem entries_eq_keyed {entries : List Entry} (consecutive : Consecutive start entries)
    {table : Table Nat Entry}
    (lookups : ∀ key, table.get key = if start ≤ key then entries[key - start]? else none) :
    table.entries = keyed entries := by
  have sorted : (keyed entries).Pairwise fun first second => first.1 < second.1 :=
    pairwise_map.mpr consecutive.increasing
  have same : table = ⟨keyed entries, sorted⟩ :=
    Table.ext_get fun key => (lookups key).trans (find_keyed consecutive key).symm
  rw [same]

theorem get_putEntries {entries : List Entry} (consecutive : Consecutive start entries)
    (db : LogDatabase) (key : Nat) :
    ((entries.map fun entry => Write.putEntry entry.index entry).foldl LogDatabase.write db).log.get key =
      if start ≤ key ∧ key < start + entries.length then entries[key - start]? else db.log.get key := by
  induction entries generalizing start db with
  | nil =>
    rw [if_neg (by simp)]
    rfl
  | cons entry rest ih =>
    rw [map_cons, foldl_cons, ih consecutive.tail]
    simp only [LogDatabase.write, Table.get_put, consecutive.head, length_cons]
    rcases Nat.lt_trichotomy key start with below | rfl | above
    · rw [if_neg (by omega), if_neg (by omega), if_neg (by omega)]
    · simp
    · have position : key - start = key - (start + 1) + 1 := by omega
      rw [position, getElem?_cons_succ]
      by_cases inside : key < start + (rest.length + 1)
      · rw [if_pos (by omega), if_pos (by omega)]
      · rw [if_neg (by omega), if_neg (by omega), if_neg (by omega)]

theorem get_deleteEntries (start count : Nat) (db : LogDatabase) (key : Nat) :
    (((List.range' start count).map Write.deleteEntry).foldl LogDatabase.write db).log.get key =
      if start ≤ key ∧ key < start + count then none else db.log.get key := by
  induction count generalizing start db with
  | zero =>
    rw [if_neg (by omega)]
    rfl
  | succ count ih =>
    rw [range'_succ, map_cons, foldl_cons, ih]
    simp only [LogDatabase.write, Table.get_erase]
    grind

theorem hardState_writes {writes : List Write} (toLog : ∀ write ∈ writes, ∀ hardState, write ≠ .putHardState hardState)
    (db : LogDatabase) : (writes.foldl LogDatabase.write db).hardState = db.hardState := by
  refine foldlRecOn (motive := (LogDatabase.hardState · = db.hardState)) writes _ rfl fun _ same write mem => ?_
  cases write with
  | putHardState hardState => exact absurd rfl (toLog _ mem hardState)
  | _ => exact same

theorem foldl_index {entries : List Entry} (consecutive : Consecutive start entries)
    (nonempty : entries ≠ []) (before : Nat) :
    entries.foldl (fun _ entry => entry.index) before + 1 = start + entries.length := by
  induction entries generalizing start before with
  | nil => exact absurd rfl nonempty
  | cons entry rest ih =>
    rw [foldl_cons]
    cases rest with
    | nil => simp [consecutive.head]
    | cons second more =>
      rw [ih consecutive.tail (cons_ne_nil _ _)]
      simp only [length_cons]
      omega

/-- The lookups after new entries were put from `first` on and the old ones behind
them deleted. -/
theorem getElem?_spliced {entries kept : List Entry} {offset first last : Nat} (behind : offset < first)
    (inLog : first - offset ≤ entries.length) (isLast : last + 1 = first + kept.length) (key : Nat) :
    (if last + 1 ≤ key ∧ key < last + 1 + (offset + entries.length - 1 - last) then none
      else if first ≤ key ∧ key < first + kept.length then kept[key - first]?
      else if offset ≤ key then entries[key - offset]? else none) =
    if offset ≤ key then (entries.take (first - offset) ++ kept)[key - offset]? else none := by
  have taken : (entries.take (first - offset)).length = first - offset := by
    rw [length_take, min_eq_left inLog]
  by_cases old : key < first
  · -- Below the new entries nothing changes.
    rw [if_neg (by omega), if_neg (by omega)]
    by_cases inside : offset ≤ key
    · rw [if_pos inside, if_pos inside, getElem?_append_left (by omega), getElem?_take_of_lt (by omega)]
    · rw [if_neg inside, if_neg inside]
  · have position : key - offset - (first - offset) = key - first := by omega
    rw [if_pos (show offset ≤ key by omega), if_pos (show offset ≤ key by omega),
      getElem?_append_right (by omega), taken, position]
    by_cases new : key < first + kept.length
    · rw [if_neg (by omega), if_pos (by omega)]
    -- Behind them there is nothing of either.
    rw [getElem?_eq_none (show kept.length ≤ key - first by omega)]
    split
    · rfl
    · rw [if_neg (by omega), getElem?_eq_none (by omega)]

theorem dropWhile_keyed {entries : List Entry} (consecutive : Consecutive start entries) :
    (keyed entries).dropWhile (·.1 < lo) = keyed (entries.drop (lo - start)) := by
  induction entries generalizing start with
  | nil => simp [keyed]
  | cons entry rest ih =>
    have later := ih consecutive.tail
    simp only [keyed, map_cons, dropWhile_cons, consecutive.head] at later ⊢
    by_cases below : start < lo
    · have count : lo - start = lo - (start + 1) + 1 := by omega
      rw [if_pos (by simpa using below), later, count, drop_succ_cons]
    · rw [if_neg (by simpa using below), Nat.sub_eq_zero_of_le (by omega), drop_zero, map_cons,
        consecutive.head]

theorem collect_found (sizes : Sizes) (hi maxSize : Nat) {entries : List Entry}
    (consecutive : Consecutive lo entries) (totalSize : Nat) {found : List Entry} (nonempty : found ≠ []) :
    RaftLogStorage.collect sizes hi maxSize (keyed entries) lo totalSize found =
      some (found ++ withinLimit sizes maxSize totalSize (entries.take (hi - lo))) := by
  induction entries generalizing lo totalSize found with
  | nil => simp [keyed, RaftLogStorage.collect, withinLimit]
  | cons entry rest ih =>
    rw [keyed, map_cons, RaftLogStorage.collect, consecutive.head]
    by_cases ended : hi ≤ lo
    · rw [if_pos ended, Nat.sub_eq_zero_of_le ended, take_zero, withinLimit, append_nil]
    have count : hi - lo = hi - (lo + 1) + 1 := by omega
    rw [if_neg ended, if_neg (by simp), count, take_succ_cons, withinLimit]
    by_cases full : totalSize + sizes.entry entry > maxSize
    · rw [if_pos ⟨nonempty, full⟩, if_pos full, append_nil]
    have later := ih consecutive.tail (totalSize + sizes.entry entry) (show found ++ [entry] ≠ [] by simp)
    rw [if_neg (fun both => full both.2), if_neg full, ← keyed, later, append_assoc]
    rfl

theorem collect_eq (sizes : Sizes) {hi maxSize : Nat} {entries : List Entry}
    (consecutive : Consecutive lo entries) (range : lo < hi) :
    RaftLogStorage.collect sizes hi maxSize (keyed entries) lo 0 [] =
      some (limitSize sizes maxSize (entries.take (hi - lo))) := by
  cases entries with
  | nil => simp [keyed, RaftLogStorage.collect, limitSize]
  | cons entry rest =>
    have count : hi - lo = hi - (lo + 1) + 1 := by omega
    rw [keyed, map_cons, RaftLogStorage.collect, consecutive.head, if_neg (by omega), if_neg (by simp),
      ← keyed, collect_found sizes hi maxSize consecutive.tail _ (by simp), count,
      zero_add]
    rfl

/-! ## Refinement -/

/-- The database has the entries in memory and the boundary, and the bounds beside
it are theirs. -/
structure Represents (storage : RaftLogStorage) (memory : MemoryStorage) : Prop where
  log : storage.db.log.entries = keyed memory.ents
  hardState : storage.db.hardState = some memory.hardState
  first : storage.firstEntryIndex = memory.offset
  last : storage.lastEntryIndex = memory.lastIndex
  indexes : Consecutive memory.offset memory.ents

namespace Represents

variable {storage : RaftLogStorage} {memory : MemoryStorage}

theorem created : Represents .created .new where
  log := rfl
  hardState := rfl
  first := rfl
  last := rfl
  indexes := by
    intro k entry found
    cases k with
    | zero =>
      cases found
      rfl
    | succ => cases found

theorem get (represents : Represents storage memory) (key : Nat) : storage.db.log.get key =
    if memory.offset ≤ key then memory.ents[key - memory.offset]? else none := by
  rw [Table.get, represents.log, find_keyed represents.indexes]

theorem offset_eq {memory : MemoryStorage} {entry : Entry} (first : memory.ents.head? = some entry) :
    memory.offset = entry.index := by
  rw [MemoryStorage.offset, head_of_head?_eq_some first]

theorem length_pos (memory : MemoryStorage) : 0 < memory.ents.length :=
  length_pos_of_ne_nil memory.nonempty

section

variable (represents : Represents storage memory)
include represents

theorem append {entries : List Entry}
    (consecutive : Consecutive start entries) (reaches : start ≤ memory.lastIndex + 1) :
    ∃ next, memory.append entries = some next ∧
      Represents ((storage.append entries []).1.writeBatch (storage.append entries []).2) next := by
  cases entries with
  | nil => exact ⟨memory, rfl, represents⟩
  | cons head rest =>
  have nonempty := length_pos memory
  have firstIndex : storage.firstIndex = memory.firstIndex := by
    rw [RaftLogStorage.firstIndex, MemoryStorage.firstIndex, represents.first]
  simp only [RaftLogStorage.append, MemoryStorage.append, firstIndex, consecutive.head]
  split
  · exact ⟨memory, rfl, represents⟩
  -- What is kept of the new entries starts behind the boundary.
  have indexes := consecutive.drop (memory.firstIndex - start)
  generalize isKept : (head :: rest).drop (memory.firstIndex - start) = kept at indexes ⊢
  have length : kept.length = (head :: rest).length - (memory.firstIndex - start) := by
    rw [← isKept, length_drop]
  generalize isFirst : start + (memory.firstIndex - start) = first at indexes
  unfold MemoryStorage.lastIndex at reaches
  unfold MemoryStorage.firstIndex at *
  cases kept with
  | nil =>
    simp only [length_cons, length_nil] at *
    omega
  | cons entry more =>
  have position : entry.index = first := indexes.head
  have inLog : first - memory.offset ≤ memory.ents.length := by
    omega
  simp only [position, if_neg (not_lt.mpr inLog), nil_append]
  have lastIndex := foldl_index indexes (cons_ne_nil _ _) storage.lastEntryIndex
  let next : MemoryStorage := { memory with
    ents := memory.ents.take (first - memory.offset) ++ entry :: more, nonempty := by simp }
  have behind : first - memory.offset ≠ 0 := by omega
  have offset : next.offset = memory.offset := by
    apply offset_eq
    rw [head?_append, head?_take, if_neg behind, head?_eq_some_head memory.nonempty]
    rfl
  have taken : (memory.ents.take (first - memory.offset)).length = first - memory.offset := by
    rw [length_take, min_eq_left inLog]
  have joined : Consecutive next.offset next.ents := by
    rw [offset]
    apply (represents.indexes.take _).append
    rwa [taken, show memory.offset + (first - memory.offset) = first by omega]
  refine ⟨next, rfl, ?_, ?_, ?_, ?_, joined⟩
  · apply entries_eq_keyed joined
    intro key
    simp only [RaftLogStorage.writeBatch, foldl_append]
    rw [get_deleteEntries, get_putEntries indexes, represents.get, represents.last, offset]
    exact getElem?_spliced (by omega) inLog lastIndex key
  · simp only [RaftLogStorage.writeBatch]
    rw [hardState_writes, represents.hardState]
    intro write mem
    rcases mem_append.mp mem with put | delete
    · obtain ⟨_, _, rfl⟩ := List.mem_map.mp put
      simp
    · obtain ⟨_, _, rfl⟩ := List.mem_map.mp delete
      simp
  · exact represents.first.trans offset.symm
  · simp only [RaftLogStorage.writeBatch, MemoryStorage.lastIndex, offset, next, length_append]
    omega

theorem compact {index : Nat} (behind : memory.offset < index) (before : index < memory.lastIndex) :
    ∃ next compacted, storage.compact index = some next ∧ memory.compact index = some (.ok compacted) ∧
      Represents next compacted := by
  have found : memory.ents[index - memory.offset]? ≠ none := by
    unfold MemoryStorage.lastIndex at before
    rw [ne_eq, getElem?_eq_none_iff]
    omega
  obtain ⟨entry, found⟩ := ne_none_iff_exists'.mp found
  have position : entry.index = index := by
    have := represents.indexes _ entry found
    omega
  have first : (memory.ents.drop (index - memory.offset)).head? = some entry := by
    rw [head?_drop, found]
  have left : memory.ents.drop (index - memory.offset) ≠ [] := by
    intro empty
    simp [empty] at first
  let compacted : MemoryStorage := { memory with ents := memory.ents.drop (index - memory.offset), nonempty := left }
  have offset : compacted.offset = index := (offset_eq first).trans position
  have indexes : Consecutive compacted.offset compacted.ents := by
    have dropped := represents.indexes.drop (index - memory.offset)
    rwa [show memory.offset + (index - memory.offset) = compacted.offset by omega] at dropped
  refine ⟨_, compacted, if_neg ?_, ?_, ?_, ?_, ?_, ?_, indexes⟩
  · rw [represents.last]
    omega
  · rw [MemoryStorage.compact, if_neg (by omega), dif_neg (by omega)]
  · apply entries_eq_keyed indexes
    intro key
    rw [Table.get_filter, represents.get, offset]
    by_cases kept : index ≤ key
    · have position : index - memory.offset + (key - index) = key - memory.offset := by omega
      rw [if_pos (by omega), getElem?_drop, position]
      cases memory.ents[key - memory.offset]? <;> simp [kept]
    · simp [kept]
  · exact represents.hardState
  · exact offset.symm
  · unfold MemoryStorage.lastIndex at before
    simp only [MemoryStorage.lastIndex, offset, represents.last, compacted, length_drop]
    omega

theorem reopen :
    ∃ next, (RaftLogStorage.opened storage.db).init = some next ∧ Represents next.1 memory := by
  have first : memory.ents.head? = some (memory.ents.head memory.nonempty) := head?_eq_some_head _
  have last : memory.ents.getLast? = some (memory.ents.getLast memory.nonempty) := getLast?_eq_some_getLast _
  have found : (RaftLogStorage.opened storage.db).init = some (⟨storage.db,
      (memory.ents.head memory.nonempty).index, (memory.ents.getLast memory.nonempty).index,
      memory.hardState⟩, decide (0 < (memory.ents.getLast memory.nonempty).index)) := by
    simp only [RaftLogStorage.init, RaftLogStorage.opened, represents.hardState, represents.log, keyed,
      head?_map, getLast?_map, first, last]
    rfl
  have index := represents.indexes.getLast_index last
  refine ⟨_, found, represents.log, represents.hardState, rfl, ?_, represents.indexes⟩
  simp only [MemoryStorage.lastIndex]
  omega

theorem term (index : Nat) : storage.term index = some (memory.term index) := by
  have nonempty := length_pos memory
  unfold RaftLogStorage.term MemoryStorage.term
  rw [represents.first, represents.last, represents.get, MemoryStorage.lastIndex]
  by_cases below : index < memory.offset
  · rw [if_pos below, if_pos below]
  rw [if_neg below, if_neg below, if_pos (not_lt.mp below)]
  by_cases behind : index > memory.offset + memory.ents.length - 1
  · rw [if_pos behind, getElem?_eq_none (by omega)]
  · rw [if_neg behind, getElem?_eq_getElem (by omega), map_some]

theorem snapshot : storage.snapshot = some (.ok memory.boundary) := by
  have boundary : memory.term memory.offset = .ok (memory.ents.head memory.nonempty).term := by
    simp [MemoryStorage.term, head_eq_getElem, length_pos memory]
  unfold RaftLogStorage.snapshot MemoryStorage.boundary
  rw [represents.term, represents.first, boundary]
  split <;> rfl

end

theorem entries (sizes : Sizes) (represents : Represents storage memory) {hi : Nat} (maxSize : Nat)
    (ranges : memory.offset < lo → hi ≤ memory.lastIndex + 1 → memory.ents.length ≠ 1 → lo < hi) :
    storage.entries sizes lo hi maxSize = memory.entries sizes lo hi maxSize := by
  unfold RaftLogStorage.entries MemoryStorage.entries
  rw [represents.first, RaftLogStorage.lastIndex, represents.last]
  by_cases compacted : lo ≤ memory.offset
  · rw [if_pos compacted, if_pos compacted]
  by_cases outside : hi > memory.lastIndex + 1
  · rw [if_neg compacted, if_neg compacted, if_pos outside, if_pos outside]
  rw [if_neg compacted, if_neg compacted, if_neg outside, if_neg outside]
  by_cases dummy : memory.ents.length = 1
  · rw [if_pos (by rw [MemoryStorage.lastIndex]; omega), if_pos dummy]
  have range := ranges (by omega) (by omega) dummy
  rw [if_neg (by omega), if_neg dummy, if_neg (by omega)]
  have indexes := represents.indexes.drop (lo - memory.offset)
  rw [show memory.offset + (lo - memory.offset) = lo by omega] at indexes
  rw [represents.log, dropWhile_keyed represents.indexes, collect_eq sizes indexes range]
  have found : limitSize sizes maxSize ((memory.ents.drop (lo - memory.offset)).take (hi - lo)) ≠ [] := by
    apply RaftLog.limitSize_ne_nil
    rw [ne_eq, take_eq_nil_iff, drop_eq_nil_iff]
    rw [MemoryStorage.lastIndex] at outside
    omega
  split
  · simp_all
  · simp_all
  · simp_all

theorem respond (sizes : Sizes) (represents : Represents storage memory) (call : StorageCall)
    (covered : memory.covered call) :
    Option.Rel (fun here there => Represents here.1 there.1 ∧ here.2 = there.2)
      (storage.respond sizes call) (memory.respondBoundary sizes call) := by
  cases call with
  | append entries =>
    obtain ⟨start, reaches, consecutive⟩ := covered
    obtain ⟨next, appended, kept⟩ := represents.append consecutive reaches
    simp only [MemoryStorage.respondBoundary, MemoryStorage.respond, appended]
    exact .some ⟨kept, rfl⟩
  | setHardState hardState =>
    exact .some ⟨⟨represents.log, rfl, represents.first, represents.last, represents.indexes⟩, rfl⟩
  | compact index =>
    obtain ⟨behind, notLast⟩ := covered
    rcases Nat.lt_or_gt_of_ne notLast with before | outside
    · obtain ⟨next, compacted, here, there, kept⟩ := represents.compact behind before
      simp only [RaftLogStorage.respond, MemoryStorage.respondBoundary, MemoryStorage.respond, here, there]
      exact .some ⟨kept, rfl⟩
    · have here : storage.compact index = none := if_pos (by rw [represents.last]; omega)
      have there : memory.compact index = none := by
        rw [MemoryStorage.compact, if_neg (by omega), dif_pos outside]
      simp only [RaftLogStorage.respond, MemoryStorage.respondBoundary, MemoryStorage.respond, here, there]
      exact .none
  | reopen =>
    obtain ⟨next, found, kept⟩ := represents.reopen
    simp only [RaftLogStorage.respond, found]
    exact .some ⟨kept, rfl⟩
  | entries lo hi maxSize =>
    simp only [RaftLogStorage.respond, MemoryStorage.respondBoundary, MemoryStorage.respond,
      represents.entries sizes maxSize covered]
    cases memory.entries sizes lo hi maxSize with
    | none => exact .none
    | some found => exact .some ⟨represents, rfl⟩
  | term index =>
    simp only [RaftLogStorage.respond, represents.term]
    exact .some ⟨represents, rfl⟩
  | firstIndex =>
    exact .some ⟨represents, by rw [RaftLogStorage.firstIndex, represents.first]; rfl⟩
  | lastIndex =>
    exact .some ⟨represents, by rw [RaftLogStorage.lastIndex, represents.last]⟩
  | snapshot =>
    simp only [RaftLogStorage.respond, represents.snapshot]
    exact .some ⟨represents, rfl⟩

end Represents

namespace RaftLogStorage

/-- Over a new database, and through every reopening, the store answers as the
storage in memory, which is asked for its boundary instead of for a snapshot. -/
theorem answers_memory (sizes : Sizes) {calls : List StorageCall}
    (covered : CallsMeet (MemoryStorage.respondBoundary sizes) MemoryStorage.covered .new calls) :
    answers (respond sizes) .created calls =
      answers (MemoryStorage.respondBoundary sizes) .new calls :=
  answers_eq Represents (fun _ _ call represents => represents.respond sizes call) .created covered

/-- A log that is overwritten from its second entry on, compacted and reopened. -/
theorem answers_memory_reopened :
    let sizes : Sizes := ⟨fun _ => 1, fun _ => 0⟩
    let calls : List StorageCall :=
      [.append [⟨1, 1, .empty⟩, ⟨1, 2, .empty⟩, ⟨1, 3, .empty⟩], .append [⟨2, 2, .empty⟩, ⟨2, 3, .empty⟩],
        .setHardState ⟨2, 1, 2⟩, .reopen, .compact 2, .reopen, .term 1, .term 2, .entries 3 4 10, .snapshot]
    answers (respond sizes) .created calls = answers (MemoryStorage.respondBoundary sizes) .new calls ∧
      answers (respond sizes) .created calls =
        [some .done, some .done, some .done, some .done, some .done, some .done, some (.error .compacted),
          some (.number 2), some (.entries [⟨2, 3, .empty⟩]), some (.snapshot (some ⟨2, 2⟩))] := by
  intro sizes calls
  exact ⟨answers_memory sizes (by decide +kernel), by decide +kernel⟩

/-- Without the restrictions the answers differ: to a snapshot from the start, after
a compaction at an index that is compacted already, at a compaction of everything
and at an empty range. -/
theorem answers_differ :
    let sizes : Sizes := ⟨fun _ => 1, fun _ => 0⟩
    let log : StorageCall := .append [⟨1, 1, .empty⟩, ⟨1, 2, .empty⟩, ⟨1, 3, .empty⟩]
    let store := answers (respond sizes) .created
    let memory := answers (MemoryStorage.respond sizes) .new
    (store [.snapshot] = [some (.snapshot none)] ∧ memory [.snapshot] = [some (.snapshot (some ⟨0, 0⟩))]) ∧
    (store [log, .compact 2, .compact 1, .firstIndex] = [some .done, some .done, some .done, some (.number 2)] ∧
      memory [log, .compact 2, .compact 1, .firstIndex] =
        [some .done, some .done, some (.error .compacted), some (.number 3)]) ∧
    (store [log, .compact 3] = [some .done, none] ∧ memory [log, .compact 3] = [some .done, some .done]) ∧
    store [log, .entries 2 2 10] = [some .done, none] ∧
      memory [log, .entries 2 2 10] = [some .done, some (.entries [])] := by
  decide +kernel

end RaftLogStorage

end RocksGraph.Eraft
