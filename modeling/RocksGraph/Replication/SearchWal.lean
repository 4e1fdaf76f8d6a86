import RocksGraph.Foundation.Cursor
import RocksGraph.Foundation.SharedLog
import RocksGraph.Foundation.Transition

/-! The write-ahead log of a replicated search index.

A transaction that changes the documents or vectors of an index draws a WAL key
for each of its updates (`NextWALKey`) and proposes them in one write batch.
Every replica writes the committed batches to its store in log order
(`ApplyRaftWriteBatch`), and from time to time its index reads the stored
records behind its own cursor (`ApplyWAL`). The full-text and the vector index
differ in what they make durable and when they delete the records they took.

The build of the index found nothing to load, so that the index starts empty; its
catch-up and the later updates are the passes of `ApplyWAL`, and at some time the
record of the index is written as READY (`publish`). Storage calls succeed. -/

set_option autoImplicit false

namespace RocksGraph.SearchWal

open List hiding after
open Foundation Option

/-- The kind of index. A vector index makes a checkpoint when
`FLAGS_vt_serialize_interval` records were taken since the last one. -/
inductive Kind where
  | fullText
  | vector (serializeInterval : Nat)

abbrev Batch (Update : Type) := List (Nat × Update)

variable {Update : Type}

/-- What `ApplyWAL` deletes from the store after it made its progress durable. -/
inductive Removal where
  | keys (ids : List Nat)
  | upTo (id : Nat)

def Removal.covers : Removal → Nat → Bool
  | .keys ids, id => ids.contains id
  | .upTo bound, id => id ≤ bound

/-- What a replica keeps over a restart. `saved` and `savedId` are the index as
of its last `Commit` with the payload, or of its last `Checkpoint`. -/
structure Disk (Update : Type) where
  wal : Table Nat Update
  applyIndex : Nat
  metaAppliedWalId : Nat
  saved : List Update
  savedId : Option Nat

/-- An `ApplyWAL` in progress: what its iterator has left, the last id it
took (0 before the first) and a deletion it still has to write. -/
structure Pass (Update : Type) where
  todo : Batch Update
  consumedWalId : Nat
  removal : Option Removal

/-- The process of a replica. `content` lists the updates that the index
holds, `batch` is the write batch of a transaction that drew its keys. -/
structure Memory (Update : Type) where
  content : List Update
  applyId : Nat
  nextWalId : Nat
  pass : Option (Pass Update)
  batch : Option (Batch Update)

structure Node (Update : Type) where
  disk : Disk Update
  memory : Option (Memory Update)

/-- The id after the last one stored, as `SeekForPrev` finds it. -/
def Disk.afterLastStored (disk : Disk Update) : Nat :=
  match disk.wal.entries.getLast? with
  | some entry => entry.1 + 1
  | none => 1

def Disk.appliedWalId (kind : Kind) (disk : Disk Update) : Nat :=
  match kind with
  | .fullText => disk.savedId.getD 0
  | .vector _ => disk.savedId.getD disk.metaAppliedWalId

def Disk.opened (kind : Kind) (disk : Disk Update) : Memory Update where
  content := disk.saved
  applyId := disk.appliedWalId kind
  nextWalId := max disk.afterLastStored (disk.appliedWalId kind + 1)
  pass := none
  batch := none

def Disk.empty : Disk Update where
  wal := .empty
  applyIndex := 0
  metaAppliedWalId := 0
  saved := []
  savedId := none

structure State (Update : Type) where
  shared : SharedLog Nat (Batch Update)
  nodes : Nat → Node Update

def State.init (kind : Kind) : State Update where
  shared := .empty
  nodes := fun _ => ⟨.empty, some (Disk.empty.opened kind)⟩

inductive Action (Update : Type) where
  | elect (node : Nat) (branch : List (Batch Update))
  | commit (upto : Nat)
  | draw (node : Nat) (updates : List Update)
  | propose (node : Nat)
  | fork (node : Nat) (branch : List (Batch Update))
  | reject (node : Nat)
  | apply (node : Nat)
  | beginApplyWal (node : Nat)
  | stepApplyWal (node : Nat)
  | publish (node : Nat)
  | crash (node : Nat)
  | restart (node : Nat)

/-- Write the keys `NextWALKey` gives to the updates of a transaction. -/
def number (next : Nat) : List Update → Batch Update
  | [] => []
  | update :: rest => (next, update) :: number (next + 1) rest

def updatesOf (records : Batch Update) : List Update := records.map Prod.snd

/-- `ApplyWAL` commits the full-text writer once for this many records. -/
def commitEvery : Nat := 1000

def lastId (block : Batch Update) (default : Nat) : Nat :=
  match block.getLast? with
  | some entry => entry.1
  | none => default

/-- `Commit` of the full-text writer, `Checkpoint` of the vector store. -/
def Disk.save (disk : Disk Update) (content : List Update) (id : Nat) : Disk Update :=
  { disk with saved := content, savedId := some id }

def Disk.remove (disk : Disk Update) (removal : Removal) : Disk Update :=
  { disk with wal := disk.wal.filter fun id _ => !removal.covers id }

/-- The next block the iterator yields, and whether it is made durable. -/
def Pass.block (kind : Kind) (disk : Disk Update) (pass : Pass Update) :
    Batch Update × Option Removal :=
  match kind with
  | .fullText =>
    let block := pass.todo.take commitEvery
    (block, some (.keys (block.map Prod.fst)))
  | .vector serializeInterval =>
    let block := pass.todo.take 1
    let id := lastId block pass.consumedWalId
    if id - disk.savedId.getD 0 < max 1 serializeInterval then (block, none)
    else (block, some (.upTo id))

section Step

-- `ParseFromArray` takes the payload of an update; it refuses texts that are not UTF-8.
variable (readable : Update → Bool)

/-- One step of a running `ApplyWAL`: a deletion, a block of records, or the end.
A payload that cannot be parsed throws, and `apply_id_` stays. -/
def Node.stepApplyWal (kind : Kind) (disk : Disk Update) (memory : Memory Update)
    (pass : Pass Update) : Node Update :=
  match pass.removal with
  | some removal =>
    ⟨disk.remove removal, some { memory with pass := some { pass with removal := none } }⟩
  | none =>
    match pass.todo with
    | [] =>
      let applyId := if pass.consumedWalId = 0 then memory.applyId else pass.consumedWalId
      ⟨disk, some { memory with applyId, pass := none }⟩
    | _ :: _ =>
      let (block, removal) := pass.block kind disk
      if ¬ ∀ record ∈ block, readable record.2 then ⟨disk, some { memory with pass := none }⟩ else
      let content := memory.content ++ updatesOf block
      let id := lastId block pass.consumedWalId
      ⟨if removal.isSome then disk.save content id else disk,
        some { memory with
          content
          pass := some ⟨pass.todo.drop block.length, id, removal⟩ }⟩

def State.setNode (state : State Update) (node : Nat) (value : Node Update) : State Update :=
  { state with nodes := Function.update state.nodes node value }

def State.setMemory (state : State Update) (node : Nat) (memory : Memory Update) : State Update :=
  state.setNode node ⟨(state.nodes node).disk, some memory⟩

def Disk.applyBatch (disk : Disk Update) (batch : Batch Update) : Disk Update :=
  { disk with wal := disk.wal.putAll batch, applyIndex := disk.applyIndex + 1 }

def State.step [DecidableEq Update] (kind : Kind) (state : State Update) :
    Action Update → Option (State Update)
  | .elect node branch =>
    (state.shared.elect node branch).map fun shared => { state with shared }
  | .commit upto => (state.shared.commit upto).map fun shared => { state with shared }
  | .draw node updates =>
    match (state.nodes node).memory with
    | none => none
    | some memory =>
      if memory.batch.isSome then none
      else some (state.setMemory node { memory with
        batch := some (number memory.nextWalId updates)
        nextWalId := memory.nextWalId + updates.length })
  | .propose node =>
    match (state.nodes node).memory with
    | none => none
    | some memory =>
      match memory.batch with
      | none => none
      | some batch =>
        if state.shared.leader = some node then
          some { state.setMemory node { memory with batch := none } with
            shared := state.shared.append batch }
        else none
  | .fork node branch =>
    (state.nodes node).memory.bind fun memory => memory.batch.bind fun batch =>
      (state.shared.fork branch batch).map fun shared =>
        { state.setMemory node { memory with batch := none } with shared }
  | .reject node =>
    match (state.nodes node).memory with
    | none => none
    | some memory => some (state.setMemory node { memory with batch := none })
  | .apply node =>
    match (state.nodes node).memory with
    | none => none
    | some memory =>
      match state.shared.committedLog[(state.nodes node).disk.applyIndex]? with
      | none => none
      | some batch =>
        some (state.setNode node ⟨(state.nodes node).disk.applyBatch batch, some memory⟩)
  | .beginApplyWal node =>
    match (state.nodes node).memory with
    | none => none
    | some memory =>
      if memory.pass.isSome then none
      else some (state.setMemory node { memory with
        pass := some ⟨after memory.applyId (state.nodes node).disk.wal.entries, 0, none⟩ })
  | .stepApplyWal node =>
    match (state.nodes node).memory with
    | none => none
    | some memory =>
      match memory.pass with
      | none => none
      | some pass =>
        some (state.setNode node (Node.stepApplyWal readable kind (state.nodes node).disk memory pass))
  | .publish node =>
    -- the record of the index has the applied id in it
    (state.nodes node).memory.map fun memory => state.setNode node
      ⟨{ (state.nodes node).disk with metaAppliedWalId := memory.applyId }, some memory⟩
  | .crash node => some (state.setNode node ⟨(state.nodes node).disk, none⟩)
  | .restart node =>
    match (state.nodes node).memory with
    | some _ => none
    | none => some (state.setMemory node ((state.nodes node).disk.opened kind))

end Step

/-! ## What a replica has stored and taken

`records` are those of the batches that the replica applied. -/

/-- The id up to which the records are in the durable index. -/
def Disk.savedPoint (disk : Disk Update) : Nat := disk.savedId.getD 0

def Memory.cursor (memory : Memory Update) : Nat :=
  match memory.pass with
  | some pass => if pass.consumedWalId = 0 then memory.applyId else pass.consumedWalId
  | none => memory.applyId

structure RecordsOk (records : Batch Update) : Prop where
  ordered : Ordered records
  positive : ∀ record ∈ records, 0 < record.1

def IsPoint (records : Batch Update) (point : Nat) : Prop :=
  point = 0 ∨ ∃ update, (point, update) ∈ records

structure DiskOk (records : Batch Update) (disk : Disk Update) : Prop where
  noMeta : disk.savedId = none → disk.metaAppliedWalId = 0
  stored : ∀ id update, disk.wal.get id = some update → (id, update) ∈ records
  kept : ∀ id update, (id, update) ∈ records → disk.savedPoint < id →
    disk.wal.get id = some update
  saved : disk.saved = updatesOf (upTo disk.savedPoint records)
  point : IsPoint records disk.savedPoint

structure MemoryOk (records : Batch Update) (disk : Disk Update) (memory : Memory Update) : Prop where
  content : memory.content = updatesOf (upTo memory.cursor records)
  point : IsPoint records memory.cursor
  saved_le : disk.savedPoint ≤ memory.cursor
  apply_le : memory.applyId ≤ memory.cursor
  todo : ∀ pass, memory.pass = some pass → pass.todo <+: after memory.cursor records
  removal : ∀ pass removal id, memory.pass = some pass → pass.removal = some removal →
    removal.covers id = true → id ≤ disk.savedPoint
  next_pos : 0 < memory.nextWalId
  batch : ∀ batch, memory.batch = some batch → RecordsOk batch

structure NodeOk (records : Batch Update) (node : Node Update) : Prop where
  disk : DiskOk records node.disk
  memory : ∀ memory, node.memory = some memory → MemoryOk records node.disk memory

section Replica

variable {batch records : Batch Update} {disk : Disk Update} {memory : Memory Update}
  {removal : Removal} {pass : Pass Update} {readable : Update → Bool}

theorem NodeOk.running (stored : DiskOk records disk) (taken : MemoryOk records disk memory) :
    NodeOk records ⟨disk, some memory⟩ :=
  ⟨stored, fun _ same => some.inj same ▸ taken⟩

theorem Disk.appliedWalId_eq (kind : Kind) (ok : DiskOk records disk) : disk.appliedWalId kind = disk.savedPoint := by
  cases kind with
  | fullText => rfl
  | vector serializeInterval =>
    cases saved : disk.savedId with
    | none => rw [appliedWalId, savedPoint, saved, ok.noMeta saved]
    | some id => rw [appliedWalId, savedPoint, saved, getD_some, getD_some]

theorem DiskOk.opened (kind : Kind) (ok : DiskOk records disk) : MemoryOk records disk (disk.opened kind) := by
  have same : (disk.opened kind).cursor = disk.savedPoint := Disk.appliedWalId_eq kind ok
  constructor
  · rw [same]
    exact ok.saved
  · rw [same]
    exact ok.point
  · rw [same]
  · exact le_rfl
  · intro pass started
    cases started
  · intro pass removal id started
    cases started
  · exact lt_of_lt_of_le (Nat.succ_pos _) (Nat.le_max_right ..)
  · intro batch drawn
    cases drawn

variable {point : Nat}

theorem RecordsOk.below (ok : RecordsOk (records ++ batch))
    (taken : IsPoint records point) : ∀ record ∈ batch, point < record.1 := by
  intro record mem
  rcases taken with rfl | ⟨update, old⟩
  · exact ok.positive record (mem_append_right _ mem)
  · exact (pairwise_append.mp ok.ordered).2.2 _ old record mem

theorem IsPoint.append (taken : IsPoint records point) (batch : Batch Update) :
    IsPoint (records ++ batch) point :=
  taken.imp_right fun ⟨update, mem⟩ => ⟨update, mem_append_left _ mem⟩

theorem RecordsOk.upTo_append (ok : RecordsOk (records ++ batch)) (taken : IsPoint records point) :
    upTo point (records ++ batch) = upTo point records := by
  rw [Foundation.upTo_append, upTo_eq_nil (ok.below taken), append_nil]

theorem DiskOk.applyBatch (ok : DiskOk records disk) (fresh : RecordsOk (records ++ batch)) :
    DiskOk (records ++ batch) (disk.applyBatch batch) := by
  have ordered : Ordered batch := (pairwise_append.mp fresh.ordered).2.1
  constructor
  · exact ok.noMeta
  · intro id update found
    rcases (Table.get_putAll ordered).mp found with new | ⟨-, old⟩
    · exact mem_append_right _ new
    · exact mem_append_left _ (ok.stored id update old)
  · intro id update mem due
    refine (Table.get_putAll ordered).mpr ?_
    rcases mem_append.mp mem with old | new
    · refine .inr ⟨fun entry added => ?_, ok.kept id update old due⟩
      exact ne_of_gt ((pairwise_append.mp fresh.ordered).2.2 _ old entry added)
    · exact .inl new
  · rw [show (disk.applyBatch batch).saved = disk.saved from rfl, ok.saved]
    exact congrArg updatesOf (fresh.upTo_append ok.point).symm
  · exact ok.point.append batch

theorem MemoryOk.applyBatch (ok : MemoryOk records disk memory)
    (fresh : RecordsOk (records ++ batch)) :
    MemoryOk (records ++ batch) (disk.applyBatch batch) memory := by
  constructor
  · rw [fresh.upTo_append ok.point]
    exact ok.content
  · exact ok.point.append batch
  · exact ok.saved_le
  · exact ok.apply_le
  · intro pass started
    rw [after_append]
    exact (ok.todo pass started).trans (prefix_append ..)
  · exact ok.removal
  · exact ok.next_pos
  · exact ok.batch

theorem NodeOk.applyBatch {node : Node Update} (ok : NodeOk records node)
    (fresh : RecordsOk (records ++ batch)) :
    NodeOk (records ++ batch) ⟨node.disk.applyBatch batch, node.memory⟩ :=
  ⟨ok.disk.applyBatch fresh, fun memory running => (ok.memory memory running).applyBatch fresh⟩

/-! ## Taking records -/

theorem DiskOk.remove (ok : DiskOk records disk)
    (covered : ∀ id, removal.covers id = true → id ≤ disk.savedPoint) :
    DiskOk records (disk.remove removal) := by
  refine ⟨ok.noMeta, ?_, ?_, ok.saved, ok.point⟩
  · intro id update found
    rw [Disk.remove, Table.get_filter] at found
    exact ok.stored id update (filter_eq_some_iff.mp found).1
  · intro id update mem due
    rw [Disk.remove, Table.get_filter]
    refine filter_eq_some_iff.mpr ⟨ok.kept id update mem due, ?_⟩
    have uncovered : ¬ removal.covers id = true := fun hit => not_lt.mpr (covered id hit) due
    simp [uncovered]

theorem DiskOk.save (ok : DiskOk records disk) {content : List Update} {id : Nat}
    (later : disk.savedPoint ≤ id) (taken : content = updatesOf (upTo id records))
    (point : IsPoint records id) : DiskOk records (disk.save content id) := by
  refine ⟨(fun absent => nomatch absent), ok.stored, ?_, taken, point⟩
  intro other update mem due
  exact ok.kept other update mem (lt_of_le_of_lt later due)

/-- What a block is: the start of the list of records, ending with a last one,
and its deletion reaches no further than that one. -/
theorem Pass.block_spec (kind : Kind) (disk : Disk Update) (ordered : Ordered pass.todo)
    (more : pass.todo ≠ []) : ∃ front last, (pass.block kind disk).1 = front ++ [last] ∧
      pass.todo = (front ++ [last]) ++ pass.todo.drop (front ++ [last]).length ∧
      ∀ removal, (pass.block kind disk).2 = some removal →
        ∀ id, removal.covers id = true → id ≤ last.1 := by
  have cut : ∀ count, 0 < count → ∃ front last, pass.todo.take count = front ++ [last] ∧
      pass.todo = (front ++ [last]) ++ pass.todo.drop (front ++ [last]).length := by
    intro count positive
    have filled : pass.todo.take count ≠ [] := by simp [more, positive.ne']
    obtain ⟨front, last, taken⟩ := List.eq_nil_or_concat' (pass.todo.take count) |>.resolve_left filled
    refine ⟨front, last, taken, ?_⟩
    rw [← taken]
    exact (List.prefix_iff_eq_append.mp (List.take_prefix ..)).symm
  cases kind with
  | fullText =>
    obtain ⟨front, last, taken, whole⟩ := cut commitEvery (by decide)
    refine ⟨front, last, taken, whole, ?_⟩
    intro removal chosen id hit
    cases chosen
    rw [Removal.covers, List.contains_iff_mem, taken, List.mem_map] at hit
    obtain ⟨entry, mem, rfl⟩ := hit
    have sorted : Ordered (front ++ [last]) := by
      rw [whole] at ordered
      exact (List.pairwise_append.mp ordered).1
    rcases List.mem_append.mp mem with early | same
    · exact le_of_lt ((List.pairwise_append.mp sorted).2.2 _ early last (by simp))
    · rw [List.mem_singleton.mp same]
  | vector serializeInterval =>
    obtain ⟨front, last, taken, whole⟩ := cut 1 (by decide)
    have ends : lastId (pass.todo.take 1) pass.consumedWalId = last.1 := by
      rw [lastId, taken, List.getLast?_concat]
    refine ⟨front, last, ?_, whole, ?_⟩
    · rw [← taken, Pass.block]
      split <;> rfl
    · intro removal chosen id hit
      rw [Pass.block] at chosen
      split at chosen <;> cases chosen
      rw [ends] at hit
      exact of_decide_eq_true hit

theorem NodeOk.takeBlock (kind : Kind) {rest : Batch Update} (fine : RecordsOk records)
    (ok : NodeOk records ⟨disk, some memory⟩) (idle : pass.removal = none) (more : pass.todo ≠ [])
    (due : after memory.cursor records = pass.todo ++ rest) (clear : ∀ record ∈ records, readable record.2) :
    ∃ disk' memory' pass', Node.stepApplyWal readable kind disk memory pass = ⟨disk', some memory'⟩ ∧
      memory'.pass = some pass' ∧ NodeOk records ⟨disk', some memory'⟩ ∧
      disk'.applyIndex = disk.applyIndex ∧ pass'.todo.length < pass.todo.length ∧
      after memory'.cursor records = pass'.todo ++ rest := by
  have ordered : Ordered pass.todo := by
    have sorted : Ordered (after memory.cursor records) := fine.ordered.filter _
    rw [due] at sorted
    exact (pairwise_append.mp sorted).1
  obtain ⟨front, last, block, whole, covered⟩ := Pass.block_spec kind disk ordered more
  have ends : lastId (front ++ [last]) pass.consumedWalId = last.1 := by
    rw [lastId, getLast?_concat]
  have due' : after memory.cursor records =
      (front ++ [last]) ++ (pass.todo.drop (front ++ [last]).length ++ rest) := by
    rw [due, ← append_assoc, ← whole]
  obtain ⟨taken, left⟩ := advance fine.ordered due'
  obtain ⟨mem, later⟩ : last ∈ records ∧ memory.cursor < last.1 := mem_after.mp (by simp [due'])
  have old := ok.memory memory rfl
  have positive : last.1 ≠ 0 := ne_of_gt (fine.positive last mem)
  have point : IsPoint records last.1 := .inr ⟨last.2, mem⟩
  have content : memory.content ++ updatesOf (front ++ [last]) = updatesOf (upTo last.1 records) := by
    rw [taken, old.content, updatesOf, updatesOf, updatesOf, ← map_append]
  let next : Memory Update := { memory with
    content := memory.content ++ updatesOf (front ++ [last])
    pass := some ⟨pass.todo.drop (front ++ [last]).length, last.1, (pass.block kind disk).2⟩ }
  have parsed : ∀ record ∈ front ++ [last], readable record.2 := by
    intro record mem
    exact clear record (mem_after.mp (by rw [due']; exact mem_append_left _ mem)).1
  have stepped : Node.stepApplyWal readable kind disk memory pass =
      ⟨if (pass.block kind disk).2.isSome then disk.save next.content last.1 else disk, some next⟩ := by
    unfold Node.stepApplyWal
    rw [idle]
    cases rows : pass.todo with
    | nil => exact absurd rows more
    | cons head tail => simp only [block, ends, next, rows, if_neg (not_not.mpr parsed)]
  have cursor : next.cursor = last.1 := if_neg positive
  have reached : disk.savedPoint ≤ last.1 := le_trans old.saved_le (le_of_lt later)
  refine ⟨_, _, _, stepped, rfl, .running ?_ ?_, ?_, ?_, ?_⟩
  · split
    · exact ok.disk.save reached content point
    · exact ok.disk
  · refine ⟨?_, ?_, ?_, ?_, ?_, ?_, old.next_pos, old.batch⟩ <;> rw [cursor] at *
    · exact content
    · exact point
    · show Disk.savedPoint (if _ then _ else _) ≤ last.1
      split
      · exact le_rfl
      · exact reached
    · exact le_trans old.apply_le (le_of_lt later)
    · rintro _ ⟨⟩
      rw [left]
      exact prefix_append ..
    · rintro _ removal id ⟨⟩ chosen hit
      have saved : (pass.block kind disk).2.isSome = true :=
        isSome_iff_exists.mpr ⟨removal, chosen⟩
      show id ≤ Disk.savedPoint (if _ then _ else _)
      rw [if_pos saved]
      exact covered removal chosen id hit
  · split <;> rfl
  · have shorter : 0 < (front ++ [last]).length := by simp
    rw [length_drop]
    exact Nat.sub_lt (length_pos_of_ne_nil more) shorter
  · rw [cursor]
    exact left

theorem Memory.cursor_idle (started : memory.pass = some pass) :
    ({ memory with pass := some { pass with removal := none } } : Memory Update).cursor = memory.cursor := by
  rw [cursor, cursor, started]

theorem NodeOk.removed (ok : NodeOk records ⟨disk, some memory⟩) (started : memory.pass = some pass)
    (due : pass.removal = some removal) :
    NodeOk records ⟨disk.remove removal,
      some { memory with pass := some { pass with removal := none } }⟩ := by
  obtain ⟨content, point, saved, applied, todo, covered, positive, batch⟩ := ok.memory memory rfl
  refine .running (ok.disk.remove fun id hit => covered pass removal id started due hit) ?_
  rw [← Memory.cursor_idle started] at content point saved applied todo
  refine ⟨content, point, saved, applied, ?_, ?_, positive, batch⟩
  · rintro _ ⟨⟩
    exact todo pass started
  · rintro _ other id ⟨⟩ chosen
    cases chosen

theorem NodeOk.finished (ok : NodeOk records ⟨disk, some memory⟩) :
    NodeOk records ⟨disk, some { memory with applyId := memory.cursor, pass := none }⟩ := by
  have old := ok.memory memory rfl
  refine .running ok.disk ?_
  refine ⟨old.content, old.point, old.saved_le, le_rfl, ?_, ?_, old.next_pos, old.batch⟩
  · rintro pass ⟨⟩
  · rintro pass removal id ⟨⟩

theorem Node.stepApplyWal_removal (kind : Kind) (due : pass.removal = some removal) :
    Node.stepApplyWal readable kind disk memory pass =
      ⟨disk.remove removal, some { memory with pass := some { pass with removal := none } }⟩ := by
  rw [stepApplyWal, due]

theorem Node.stepApplyWal_end (kind : Kind) (started : memory.pass = some pass)
    (idle : pass.removal = none) (empty : pass.todo = []) :
    Node.stepApplyWal readable kind disk memory pass =
      ⟨disk, some { memory with applyId := memory.cursor, pass := none }⟩ := by
  rw [stepApplyWal, idle, empty, Memory.cursor, started]

theorem NodeOk.stepApplyWal (kind : Kind) (fine : RecordsOk records) (clear : ∀ record ∈ records, readable record.2)
    (ok : NodeOk records ⟨disk, some memory⟩) (started : memory.pass = some pass) :
    NodeOk records (Node.stepApplyWal readable kind disk memory pass) ∧
      (Node.stepApplyWal readable kind disk memory pass).disk.applyIndex = disk.applyIndex := by
  cases idle : pass.removal with
  | some removal =>
    rw [Node.stepApplyWal_removal kind idle]
    exact ⟨ok.removed started idle, rfl⟩
  | none =>
    by_cases more : pass.todo = []
    · rw [Node.stepApplyWal_end kind started idle more]
      exact ⟨ok.finished, rfl⟩
    · obtain ⟨rest, due⟩ := (ok.memory memory rfl).todo pass started
      obtain ⟨disk', memory', pass', stepped, -, kept, same, -, -⟩ :=
        ok.takeBlock kind fine idle more due.symm clear
      rw [stepped]
      exact ⟨kept, same⟩

end Replica

structure Fresh (readable : Update → Bool) (log : List (Batch Update)) (batch : Batch Update) : Prop where
  records : RecordsOk batch
  above : ∀ old ∈ log.flatten, ∀ record ∈ batch, old.1 < record.1
  readable : ∀ record ∈ batch, readable record.2

/-- The batch that a node has drawn can be read back, and its WAL ids lie above those of the log. -/
def State.fits (readable : Update → Bool) (state : State Update) (node : Nat) (log : List (Batch Update)) : Prop :=
  ∀ memory ∈ (state.nodes node).memory.toList, ∀ batch ∈ memory.batch.toList,
    (∀ old ∈ log.flatten, ∀ record ∈ batch, old.1 < record.1) ∧ ∀ record ∈ batch, readable record.2

/-- A leader proposes only what fits behind its log. A vector index that has taken
records is published only with a checkpoint. -/
def idGuard (readable : Update → Bool) (state : State Update) : Action Update → Prop
  | .propose node => state.fits readable node state.shared.log
  | .fork node branch => state.fits readable node branch
  | .publish node => (state.nodes node).disk.savedId = none →
      ∀ memory ∈ (state.nodes node).memory.toList, memory.applyId = 0
  | _ => True

instance (readable : Update → Bool) (state : State Update) (node : Nat) (log : List (Batch Update)) :
    Decidable (state.fits readable node log) :=
  inferInstanceAs (Decidable (∀ _ ∈ _, _))

instance (readable : Update → Bool) (state : State Update) (action : Action Update) :
    Decidable (idGuard readable state action) := by
  unfold idGuard
  split <;> infer_instance

def State.records (state : State Update) (node : Nat) : Batch Update :=
  (state.shared.log.take (state.nodes node).disk.applyIndex).flatten

structure WalInv (readable : Update → Bool) (state : State Update) : Prop where
  grown : state.shared.AllGrown (Fresh readable)
  applied_le : ∀ node, (state.nodes node).disk.applyIndex ≤ state.shared.committed
  node : ∀ node, NodeOk (state.records node) (state.nodes node)

variable {readable : Update → Bool}

theorem recordsOk_of_grown {log : List (Batch Update)} (grown : SharedLog.Grown (Fresh readable) log) :
    RecordsOk log.flatten := by
  induction log using reverseRecOn with
  | nil => exact ⟨.nil, fun record mem => by simp at mem⟩
  | append_singleton log batch ih =>
    have old := ih (grown.of_initial (prefix_append ..))
    have fresh := grown log [] batch rfl
    rw [flatten_append, flatten_singleton]
    refine ⟨pairwise_append.mpr ⟨old.ordered, fresh.records.ordered, fresh.above⟩, ?_⟩
    intro record mem
    rcases mem_append.mp mem with early | late
    · exact old.positive record early
    · exact fresh.records.positive record late

variable {batch records : Batch Update} {disk : Disk Update} {memory : Memory Update} {pass : Pass Update} {node : Nat}
  {state : State Update} {kind : Kind}

theorem WalInv.recordsOk (inv : WalInv readable state) (node : Nat) : RecordsOk (state.records node) :=
  recordsOk_of_grown (inv.grown.log.take _)

theorem WalInv.clear (inv : WalInv readable state) (node : Nat) :
    ∀ record ∈ state.records node, readable record.2 := by
  intro record mem
  obtain ⟨batch, inLog, inBatch⟩ := mem_flatten.mp mem
  obtain ⟨before, rest, split⟩ := append_of_mem (mem_of_mem_take inLog)
  exact (inv.grown.log before rest batch split).readable record inBatch

theorem WalInv.init (kind : Kind) : WalInv readable (State.init kind : State Update) := by
  have stored : DiskOk ([] : Batch Update) Disk.empty := by
    refine ⟨fun _ => rfl, ?_, ?_, rfl, .inl rfl⟩
    · intro id update found
      cases found
    · intro id update mem
      cases mem
  exact ⟨.empty, fun _ => le_rfl, fun _ => .running stored (stored.opened kind)⟩

theorem WalInv.follows {shared : SharedLog Nat (Batch Update)} (inv : WalInv readable state)
    (follows : state.shared.Follows shared) :
    WalInv readable { state with shared } := by
  refine ⟨inv.grown.follows follows,
    fun node => le_trans (inv.applied_le node) follows.committed_le, fun node => ?_⟩
  have same : State.records { state with shared } node = state.records node :=
    congrArg flatten (follows.take_eq _ (inv.applied_le node))
  rw [same]
  exact inv.node node

variable {value : Node Update}

theorem WalInv.setNode (inv : WalInv readable state)
    (bounded : value.disk.applyIndex ≤ state.shared.committed)
    (ok : NodeOk (state.shared.log.take value.disk.applyIndex).flatten value) :
    WalInv readable (state.setNode node value) := by
  refine ⟨inv.grown, ?_, ?_⟩
  · refine (Function.forall_update_iff state.nodes fun _ node => node.disk.applyIndex ≤ state.shared.committed).mpr ?_
    exact ⟨bounded, fun other _ => inv.applied_le other⟩
  · refine (Function.forall_update_iff state.nodes fun _ node =>
      NodeOk (state.shared.log.take node.disk.applyIndex).flatten node).mpr ?_
    exact ⟨ok, fun other _ => inv.node other⟩

theorem WalInv.setMemory (inv : WalInv readable state)
    (ok : MemoryOk (state.records node) (state.nodes node).disk memory) :
    WalInv readable (state.setMemory node memory) :=
  inv.setNode (inv.applied_le node) (.running (inv.node node).disk ok)

theorem number_ok {next : Nat} (positive : 0 < next) (updates : List Update) :
    RecordsOk (number next updates) ∧ ∀ record ∈ number next updates, next ≤ record.1 := by
  induction updates generalizing next with
  | nil => exact ⟨⟨.nil, fun _ mem => by cases mem⟩, fun _ mem => by cases mem⟩
  | cons update rest ih =>
    obtain ⟨fine, above⟩ := ih (Nat.succ_pos next)
    have least : ∀ record ∈ number next (update :: rest), next ≤ record.1 := by
      intro record mem
      rcases mem_cons.mp mem with rfl | mem
      · exact le_rfl
      · exact Nat.le_of_succ_le (above record mem)
    refine ⟨⟨pairwise_cons.mpr ⟨above, fine.ordered⟩, ?_⟩, least⟩
    intro record mem
    exact lt_of_lt_of_le positive (least record mem)

theorem MemoryOk.setBatch (ok : MemoryOk records disk memory) {batch : Option (Batch Update)}
    {next : Nat} (positive : 0 < next) (fine : ∀ drawn, batch = some drawn → RecordsOk drawn) :
    MemoryOk records disk { memory with batch, nextWalId := next } :=
  ⟨ok.content, ok.point, ok.saved_le, ok.apply_le, ok.todo, ok.removal, positive, fine⟩

theorem WalInv.posted {shared : SharedLog Nat (Batch Update)} {onto : Option (List (Batch Update))}
    (inv : WalInv readable state) (landed : state.shared.Posted shared onto batch)
    (fresh : ∀ log ∈ onto, Fresh readable log batch) : WalInv readable { state with shared } := by
  refine ⟨SharedLog.AllGrown.posted landed inv.grown fresh,
    fun node => le_trans (inv.applied_le node) (le_of_eq landed.committed.symm), fun node => ?_⟩
  have same : State.records { state with shared } node = state.records node :=
    congrArg flatten (landed.take_eq _ (inv.applied_le node))
  rw [same]
  exact inv.node node

theorem WalInv.propose {shared : SharedLog Nat (Batch Update)} {onto : Option (List (Batch Update))}
    (inv : WalInv readable state) (running : (state.nodes node).memory = some memory) (drawn : memory.batch = some batch)
    (landed : state.shared.Posted shared onto batch) (fits : ∀ log ∈ onto, state.fits readable node log) :
    WalInv readable { state.setMemory node { memory with batch := none } with shared } := by
  have old := (inv.node node).memory memory running
  have cleared : WalInv readable (state.setMemory node { memory with batch := none }) :=
    inv.setMemory (old.setBatch old.next_pos (fun _ absent => nomatch absent))
  refine cleared.posted landed fun log given => ?_
  obtain ⟨above, parsed⟩ := fits log given memory (mem_toList.mpr running) batch (mem_toList.mpr drawn)
  exact ⟨old.batch batch drawn, above, parsed⟩

theorem NodeOk.due (fine : RecordsOk records) (ok : NodeOk records ⟨disk, some memory⟩)
    (idle : memory.pass = none) :
    after memory.applyId disk.wal.entries = after memory.applyId records := by
  have taken := ok.memory memory rfl
  have cursor : memory.cursor = memory.applyId := by rw [Memory.cursor, idle]
  refine Table.after_entries fine.ordered ok.disk.stored ?_
  intro id update mem due
  refine ok.disk.kept id update mem (lt_of_le_of_lt ?_ due)
  exact cursor ▸ taken.saved_le

theorem NodeOk.beginApplyWal (fine : RecordsOk records) (ok : NodeOk records ⟨disk, some memory⟩)
    (idle : memory.pass = none) :
    MemoryOk records disk
      { memory with pass := some ⟨after memory.applyId disk.wal.entries, 0, none⟩ } := by
  have taken := ok.memory memory rfl
  have cursor : memory.cursor = memory.applyId := by rw [Memory.cursor, idle]
  obtain ⟨content, point, saved, -, -, -, positive, batch⟩ := taken
  rw [cursor] at content point saved
  refine ⟨content, point, saved, le_rfl, ?_, ?_, positive, batch⟩
  · rintro _ ⟨⟩
    exact ok.due fine idle ▸ prefix_refl _
  · rintro _ removal id ⟨⟩ chosen
    cases chosen

theorem WalInv.apply (inv : WalInv readable state)
    (found : state.shared.committedLog[(state.nodes node).disk.applyIndex]? = some batch) :
    WalInv readable (state.setNode node
      ⟨(state.nodes node).disk.applyBatch batch, (state.nodes node).memory⟩) := by
  obtain ⟨below, next⟩ := SharedLog.getElem?_committedLog.mp found
  have grows : (state.shared.log.take ((state.nodes node).disk.applyIndex + 1)).flatten =
      state.records node ++ batch := by
    rw [List.take_add_one, next, toList_some, List.flatten_append, List.flatten_singleton]
    rfl
  have fine : RecordsOk (state.records node ++ batch) := by
    rw [← grows]
    exact recordsOk_of_grown (inv.grown.log.take _)
  refine inv.setNode below ?_
  show NodeOk (state.shared.log.take ((state.nodes node).disk.applyIndex + 1)).flatten _
  rw [grows]
  exact (inv.node node).applyBatch fine

theorem WalInv.running (inv : WalInv readable state) (running : (state.nodes node).memory = some memory) :
    NodeOk (state.records node) ⟨(state.nodes node).disk, some memory⟩ := by
  rw [← running]
  exact inv.node node

theorem WalInv.step [DecidableEq Update] {next : State Update} {action : Action Update}
    (inv : WalInv readable state) (guard : idGuard readable state action)
    (taken : state.step readable kind action = some next) : WalInv readable next := by
  cases action with
  | elect node branch =>
    obtain ⟨shared, elected, rfl⟩ := map_eq_some_iff.mp taken
    exact inv.follows (SharedLog.elect_follows elected)
  | commit upto =>
    obtain ⟨shared, done, rfl⟩ := map_eq_some_iff.mp taken
    exact inv.follows (SharedLog.commit_follows done)
  | draw node updates =>
    dsimp only [State.step] at taken
    split at taken
    · cases taken
    rename_i memory running
    split at taken <;> cases taken
    have old := (inv.running running).memory memory rfl
    refine inv.setMemory (old.setBatch (Nat.add_pos_left old.next_pos _) ?_)
    rintro drawn ⟨⟩
    exact (number_ok old.next_pos updates).1
  | propose node =>
    dsimp only [State.step] at taken
    split at taken
    · cases taken
    rename_i memory running
    split at taken
    · cases taken
    rename_i batch drawn
    split at taken <;> cases taken
    exact inv.propose running drawn (SharedLog.append_posted ..) (by rintro _ ⟨⟩; exact guard)
  | fork node branch =>
    obtain ⟨memory, running, taken⟩ := bind_eq_some_iff.mp taken
    obtain ⟨batch, drawn, taken⟩ := bind_eq_some_iff.mp taken
    obtain ⟨shared, forked, rfl⟩ := map_eq_some_iff.mp taken
    exact inv.propose running drawn (SharedLog.fork_posted forked) (by rintro _ ⟨⟩; exact guard)
  | reject node =>
    dsimp only [State.step] at taken
    split at taken <;> cases taken
    rename_i memory running
    have old := (inv.running running).memory memory rfl
    exact inv.setMemory (old.setBatch old.next_pos (fun _ absent => by cases absent))
  | apply node =>
    dsimp only [State.step] at taken
    split at taken
    · cases taken
    rename_i memory running
    split at taken <;> cases taken
    rename_i batch found
    exact running ▸ inv.apply found
  | beginApplyWal node =>
    dsimp only [State.step] at taken
    split at taken
    · cases taken
    rename_i memory running
    split at taken <;> cases taken
    rename_i idle
    have none : memory.pass = none := not_isSome_iff_eq_none.mp idle
    exact inv.setMemory ((inv.running running).beginApplyWal (inv.recordsOk node) none)
  | stepApplyWal node =>
    dsimp only [State.step] at taken
    split at taken
    · cases taken
    rename_i memory running
    split at taken <;> cases taken
    rename_i pass started
    obtain ⟨kept, same⟩ :=
      (inv.running running).stepApplyWal kind (inv.recordsOk node) (inv.clear node) started
    refine inv.setNode (same ▸ inv.applied_le node) ?_
    rw [same]
    exact kept
  | publish node =>
    obtain ⟨memory, running, rfl⟩ := map_eq_some_iff.mp taken
    have ok := inv.running running
    refine inv.setNode (inv.applied_le node) (.running ⟨fun absent => ?_, ok.disk.stored, ok.disk.kept,
      ok.disk.saved, ok.disk.point⟩ ?_)
    · exact guard absent memory (mem_toList.mpr running)
    · obtain ⟨content, point, saved, applied, todo, removal, next, batch⟩ := ok.memory memory rfl
      exact ⟨content, point, saved, applied, todo, removal, next, batch⟩
  | crash node =>
    cases taken
    refine inv.setNode (inv.applied_le node) ⟨(inv.node node).disk, ?_⟩
    rintro memory ⟨⟩
  | restart node =>
    dsimp only [State.step] at taken
    split at taken <;> cases taken
    exact inv.setMemory ((inv.node node).disk.opened kind)

/-! ## Every record once and in order -/

/-- Run an `ApplyWAL` of a node alone, from its start for a number of steps. -/
def applyWal (node steps : Nat) : List (Action Update) :=
  .beginApplyWal node :: List.replicate steps (.stepApplyWal node)

/-- The records of the committed log are applied by every replica once and in
log order. `completes` says that a replica that runs its `ApplyWAL` to the end
has taken every record of the batches it applied. -/
structure ExactlyOnce [DecidableEq Update] (readable : Update → Bool) (kind : Kind) (state : State Update) :
    Prop where
  distinct : (state.shared.committedLog.flatten.map Prod.fst).Nodup
  above : ∀ node memory, (state.nodes node).memory = some memory →
    ∀ record ∈ (state.shared.committedLog.drop (state.nodes node).disk.applyIndex).flatten,
      memory.applyId < record.1
  inOrder : ∀ node memory, (state.nodes node).memory = some memory →
    memory.content <+:
      updatesOf (state.shared.committedLog.take (state.nodes node).disk.applyIndex).flatten
  completes : ∀ node memory, (state.nodes node).memory = some memory → memory.pass = none →
    ∃ steps next done, execute (State.step readable kind) anyAction state (applyWal node steps) = some next ∧
      (next.nodes node).memory = some done ∧ done.pass = none ∧
      done.content =
        updatesOf (state.shared.committedLog.take (state.nodes node).disk.applyIndex).flatten

@[simp] theorem State.setNode_node (state : State Update) (node : Nat) (value : Node Update) :
    (state.setNode node value).nodes node = value := Function.update_self ..

theorem State.setNode_records (same : value.disk.applyIndex = (state.nodes node).disk.applyIndex) :
    (state.setNode node value).records node = state.records node := by
  rw [records, setNode_node, same]
  rfl

theorem WalInv.drains [DecidableEq Update] (inv : WalInv readable state)
    (running : (state.nodes node).memory = some memory) (started : memory.pass = some pass)
    (due : after memory.cursor (state.records node) = pass.todo) : ∃ steps next done,
      execute (State.step readable kind) anyAction state (List.replicate steps (.stepApplyWal node)) =
        some next ∧ (next.nodes node).memory = some done ∧ done.pass = none ∧
      done.content = updatesOf (state.records node) := by
  -- Every step deletes a stored block or shortens the list the iterator has left.
  induction measure : 2 * pass.todo.length + (if pass.removal.isSome then 1 else 0) using
    Nat.strong_induction_on generalizing state memory pass with
  | _ size ih =>
  have ok := inv.running running
  have allowed : idGuard readable state (.stepApplyWal node) := trivial
  have taken : state.step readable kind (.stepApplyWal node) =
      some (state.setNode node (Node.stepApplyWal readable kind (state.nodes node).disk memory pass)) := by
    simp only [State.step, running, started]
  have inv' := inv.step allowed taken
  cases idle : pass.removal with
  | some removal =>
    rw [Node.stepApplyWal_removal kind idle] at taken inv'
    have same : (state.setNode node ⟨(state.nodes node).disk.remove removal,
        some { memory with pass := some { pass with removal := none } }⟩).records node =
        state.records node := State.setNode_records rfl
    obtain ⟨steps, next, done, executed, ends, finished, content⟩ :=
      ih (2 * pass.todo.length) (by rw [← measure, idle]; simp) inv'
        (by rw [State.setNode_node]) rfl (by rw [same, Memory.cursor_idle started, due]) (by simp)
    refine ⟨steps + 1, next, done, ?_, ends, finished, same ▸ content⟩
    rw [replicate_succ, execute_cons trivial taken]
    exact executed
  | none =>
    by_cases more : pass.todo = []
    · rw [Node.stepApplyWal_end kind started idle more] at taken
      refine ⟨1, _, _, execute_cons trivial taken [], by rw [State.setNode_node], rfl, ?_⟩
      have whole : upTo memory.cursor (state.records node) ++ after memory.cursor _ = _ :=
        upTo_append_after (inv.recordsOk node).ordered
      rw [due, more, append_nil] at whole
      rw [(ok.memory memory rfl).content, whole]
    · have whole : after memory.cursor (state.records node) = pass.todo ++ [] := by
        rw [due, append_nil]
      obtain ⟨disk', memory', pass', stepped, started', -, sameIndex, shorter, due'⟩ :=
        ok.takeBlock kind (inv.recordsOk node) idle more whole (inv.clear node)
      rw [stepped] at taken inv'
      have same : (state.setNode node ⟨disk', some memory'⟩).records node = state.records node :=
        State.setNode_records sameIndex
      obtain ⟨steps, next, done, executed, ends, finished, content⟩ :=
        ih (2 * pass'.todo.length + (if pass'.removal.isSome then 1 else 0))
          (by rw [← measure, idle]; split <;> simp <;> omega) inv'
          (by rw [State.setNode_node]) started' (by rw [same, due', append_nil]) rfl
      refine ⟨steps + 1, next, done, ?_, ends, finished, same ▸ content⟩
      rw [replicate_succ, execute_cons trivial taken]
      exact executed

theorem WalInv.committed_take (inv : WalInv readable state) (node : Nat) :
    (state.shared.committedLog.take (state.nodes node).disk.applyIndex).flatten =
      state.records node := by
  rw [SharedLog.committedLog, take_take, min_eq_left (inv.applied_le node)]
  rfl

theorem WalInv.exactlyOnce [DecidableEq Update] (kind : Kind) (inv : WalInv readable state) :
    ExactlyOnce readable kind state := by
  have all : RecordsOk state.shared.committedLog.flatten :=
    recordsOk_of_grown (inv.grown.log.of_initial state.shared.committedLog_initial)
  constructor
  · rw [List.Nodup, pairwise_map]
    exact all.ordered.imp fun less => ne_of_lt less
  · intro node memory running record mem
    have ok := (inv.running running).memory memory rfl
    have cut := take_append_drop (state.nodes node).disk.applyIndex state.shared.committedLog
    rw [← cut, flatten_append, inv.committed_take node] at all
    exact lt_of_le_of_lt ok.apply_le (all.below ok.point record mem)
  · intro node memory running
    have ok := (inv.running running).memory memory rfl
    have whole : upTo memory.cursor (state.records node) ++ after memory.cursor _ = _ :=
      upTo_append_after (inv.recordsOk node).ordered
    rw [inv.committed_take node, ok.content, ← whole, updatesOf, updatesOf, map_append, whole]
    exact prefix_append ..
  · intro node memory running idle
    rw [inv.committed_take node]
    let begun : Memory Update :=
      { memory with pass := some ⟨after memory.applyId (state.nodes node).disk.wal.entries, 0, none⟩ }
    have taken : state.step readable kind (.beginApplyWal node) = some (state.setMemory node begun) := by
      rw [State.step, running]
      dsimp only
      rw [idle]
      rfl
    have allowed : idGuard readable state (.beginApplyWal node) := trivial
    have same : (state.setMemory node begun).records node = state.records node := State.setNode_records rfl
    have due := (inv.running running).due (inv.recordsOk node) idle
    obtain ⟨steps, next, done, executed, ends, finished, content⟩ :=
      (inv.step allowed taken).drains (by rw [State.setMemory, State.setNode_node]) rfl
        (by rw [same, due]; rfl)
    refine ⟨steps, next, done, ?_, ends, finished, same ▸ content⟩
    rw [applyWal, execute_cons trivial taken]
    exact executed

/-- In a run whose proposals carry fresh ids every record is applied exactly
once and in log order, whatever the schedule of the replicas. -/
theorem exactlyOnce_of_guarded [DecidableEq Update] {kind : Kind} {actions : List (Action Update)}
    {state : State Update} (run : Runs (State.step readable kind) (idGuard readable) (State.init kind) actions state) :
    ExactlyOnce readable kind state := by
  refine WalInv.exactlyOnce kind (run.invariant (WalInv readable) (WalInv.init kind) ?_)
  intro state action next inv guard taken
  exact inv.step guard taken

/-- The payload 0 stands for one that cannot be parsed. -/
def isText (update : Nat) : Bool := update ≠ 0

/-- Node 1 leads and commits one record, which node 2 applies to its store and
takes into its index. -/
def firstRecord (steps : Nat) : List (Action Nat) :=
  [.elect 1 [], .draw 1 [7], .propose 1, .commit 1, .apply 1, .apply 2] ++ applyWal 2 steps

/-- Node 2 leads, commits another record and runs its `ApplyWAL`. -/
def secondRecord (steps : Nat) : List (Action Nat) :=
  [.elect 2 [[(1, 7)]], .draw 2 [8], .propose 2, .commit 2, .apply 2] ++ applyWal 2 steps

/-- Node 2 restarts before it leads, so it opens the index anew. -/
def reopenedLeader : List (Action Nat) :=
  firstRecord 3 ++ [.crash 2, .restart 2] ++ secondRecord 3

theorem exactlyOnce_reopenedLeader : ∃ state,
    execute (State.step isText .fullText) (idGuard isText) (State.init .fullText) reopenedLeader = some state ∧
    (state.nodes 2).memory.map Memory.content = some [7, 8] ∧ ExactlyOnce isText .fullText state := by
  have content : ((execute (State.step isText .fullText) (idGuard isText) (State.init .fullText)
      reopenedLeader).map fun state => (state.nodes 2).memory.map Memory.content) =
      some (some [7, 8]) := by decide
  obtain ⟨state, executed, content⟩ := map_eq_some_iff.mp content
  exact ⟨state, executed, content, exactlyOnce_of_guarded (runs_of_execute executed)⟩

/-- Node 2 leads with the counter it had before the record of node 1 came. -/
def staleLeader (steps : Nat) : List (Action Nat) := firstRecord steps ++ secondRecord 1

theorem loses_record {steps : Nat}
    (final : ((execute (State.step isText kind) anyAction (State.init kind) (staleLeader steps)).map fun state =>
      (state.shared.committedLog, (state.nodes 2).memory.map Memory.content)) =
        some ([[(1, 7)], [(1, 8)]], some [7])) :
    ∃ state, execute (State.step isText kind) anyAction (State.init kind) (staleLeader steps) = some state ∧
      state.shared.committedLog = [[(1, 7)], [(1, 8)]] ∧
      (state.nodes 2).memory.map Memory.content = some [7] ∧ ¬ ExactlyOnce isText kind state := by
  obtain ⟨state, executed, final⟩ := map_eq_some_iff.mp final
  obtain ⟨log, content⟩ := Prod.mk.inj final
  refine ⟨state, executed, log, content, fun once => ?_⟩
  have distinct := once.distinct
  simp [log] at distinct

/-- A leader with a stale counter writes a second record under the key 1, and
its own index, which is past that key, never takes it. -/
theorem staleLeader_loses_record :
    (∃ state, execute (State.step isText .fullText) anyAction (State.init .fullText) (staleLeader 3) =
        some state ∧ state.shared.committedLog = [[(1, 7)], [(1, 8)]] ∧
      (state.nodes 2).memory.map Memory.content = some [7] ∧ ¬ ExactlyOnce isText .fullText state) ∧
    ∃ state, execute (State.step isText (.vector 10000)) anyAction (State.init (.vector 10000))
        (staleLeader 2) = some state ∧ state.shared.committedLog = [[(1, 7)], [(1, 8)]] ∧
      (state.nodes 2).memory.map Memory.content = some [7] ∧ ¬ ExactlyOnce isText (.vector 10000) state :=
  ⟨loses_record (by decide), loses_record (by decide)⟩

end RocksGraph.SearchWal
