import RocksGraph.Foundation.Table
import RocksGraph.Foundation.Transition
import Mathlib.Data.Finset.Lattice.Fold
import Mathlib.Data.Int.Order.Basic
import Mathlib.Order.Lattice.Nat

/-! Recovery of a vector store (`vector_store.cc`).

A checkpoint writes the faiss index to a file that has the wal id as its name,
then the maps and the wal id to the state database in one batch, and then
removes the file of the checkpoint before. A crash may come between the writes.
The store that is loaded has to be the one of the last batch. -/

set_option autoImplicit false

namespace RocksGraph.VectorRecovery

open RocksGraph.Foundation List Option Table

variable {Vector : Type}

/-- The members of `VectorStore`. The faiss index has the vectors that were added to it, under their ids. -/
structure VectorStore (Vector : Type) where
  vidVectorid : Table Int Nat
  vectoridVid : Table Nat Int
  deletedVectorIds : Finset Nat
  nextVectorId : Nat
  hnswIndex : List (Nat × Vector)
  checkpointAppliedWalId : Option Nat

structure Disk (Vector : Type) where
  checkpointAppliedWalId : Option Nat
  vids : Table Int Nat
  deleteMarks : Finset Nat
  files : Table Nat (List (Nat × Vector))

namespace VectorStore

variable (store : VectorStore Vector)

def add (vid : Int) (vector : Vector) : VectorStore Vector :=
  let replaced := match store.vidVectorid.get vid with
    | some old => { store with
        vectoridVid := store.vectoridVid.erase old
        deletedVectorIds := insert old store.deletedVectorIds }
    | none => store
  let vectorId := replaced.nextVectorId
  { replaced with
    vidVectorid := replaced.vidVectorid.put vid vectorId
    vectoridVid := replaced.vectoridVid.put vectorId vid
    deletedVectorIds := replaced.deletedVectorIds.erase vectorId
    nextVectorId := vectorId + 1
    hnswIndex := replaced.hnswIndex ++ [(vectorId, vector)] }

def delete (vid : Int) : VectorStore Vector :=
  match store.vidVectorid.get vid with
  | none => store
  | some vectorId => { store with
      vidVectorid := store.vidVectorid.erase vid
      vectoridVid := store.vectoridVid.erase vectorId
      deletedVectorIds := insert vectorId store.deletedVectorIds }

/-- `KnnSearch` on the ids that faiss gives; it throws at one that is not mapped. -/
def knnSearch (ids : List Nat) : Option (List Int) := ids.mapM store.vectoridVid.get

def vectorOf (vid : Int) : Option Vector :=
  (store.vidVectorid.get vid).bind fun vectorId => store.hnswIndex.lookup vectorId

end VectorStore

namespace Disk

/-- `vectorid_vid_` as it is loaded: an id that is there already stays. -/
def emplace (table : Table Nat Int) (entry : Int × Nat) : Table Nat Int :=
  if table.contains entry.2 then table else table.put entry.2 entry.1

variable (disk : Disk Vector)

def maxVectorId : Nat :=
  disk.vids.entries.foldl (fun top entry => max top entry.2) (disk.deleteMarks.sup id)

def file (disk : Disk Vector) : Option (List (Nat × Vector)) :=
  match disk.checkpointAppliedWalId with
  | none => some []
  | some walId => disk.files.get walId

/-- `LoadState`, which throws when the file is missing. -/
def loadState : Option (VectorStore Vector) :=
  disk.file.map fun hnswIndex => {
    vidVectorid := disk.vids
    vectoridVid := disk.vids.entries.foldl emplace .empty
    deletedVectorIds := disk.deleteMarks
    nextVectorId := disk.maxVectorId + 1
    hnswIndex
    checkpointAppliedWalId := disk.checkpointAppliedWalId }

/-! The writes of `Checkpoint`. -/

variable (store : VectorStore Vector)

def writeToFile (walId : Nat) : Disk Vector :=
  { disk with files := disk.files.put walId store.hnswIndex }

def write (walId : Nat) : Disk Vector :=
  { disk with
    checkpointAppliedWalId := some walId
    vids := store.vidVectorid
    deleteMarks := store.deletedVectorIds }

def removeObsolete (walId : Nat) : Disk Vector :=
  match store.checkpointAppliedWalId with
  | none => disk
  | some old => if old = walId then disk else { disk with files := disk.files.erase old }

end Disk

structure State (Vector : Type) where
  store : VectorStore Vector
  disk : Disk Vector
  saved : Int → Option Vector

inductive Action (Vector : Type) where
  | add (vid : Int) (vector : Vector)
  | delete (vid : Int)
  | checkpoint (walId : Nat) (removed : Bool)
  | crash
  | crashAfterFile (walId : Nat)
  | crashAfterBatch (walId : Nat)

def Action.isCrash : Action Vector → Bool
  | .crash | .crashAfterFile _ | .crashAfterBatch _ => true
  | _ => false

namespace State

def init : State Vector where
  store := ⟨.empty, .empty, ∅, 1, [], none⟩
  disk := ⟨none, .empty, ∅, .empty⟩
  saved _ := none

def recover (disk : Disk Vector) (saved : Int → Option Vector) : Option (State Vector) :=
  disk.loadState.map fun store => ⟨store, disk, saved⟩

def step (state : State Vector) : Action Vector → Option (State Vector)
  | .add vid vector => some { state with store := state.store.add vid vector }
  | .delete vid => some { state with store := state.store.delete vid }
  | .checkpoint walId removed =>
    let disk := (state.disk.writeToFile state.store walId).write state.store walId
    some {
      store := { state.store with checkpointAppliedWalId := some walId }
      -- the removal may fail, which is only logged
      disk := if removed then disk.removeObsolete state.store walId else disk
      saved := state.store.vectorOf }
  | .crash => recover state.disk state.saved
  | .crashAfterFile walId => recover (state.disk.writeToFile state.store walId) state.saved
  | .crashAfterBatch walId =>
    recover ((state.disk.writeToFile state.store walId).write state.store walId) state.store.vectorOf

end State

/-- A crash does not come between the two writes of a checkpoint whose file is that of the last one. -/
def newFile (state : State Vector) : Action Vector → Prop
  | .crashAfterFile walId => state.disk.checkpointAppliedWalId ≠ some walId
  | _ => True

instance (state : State Vector) (action : Action Vector) : Decidable (newFile state action) := by
  unfold newFile
  split <;> infer_instance

/-- The maps are inverse, and every vector of the index has its own id, which is live or deleted and was drawn. -/
structure Consistent (store : VectorStore Vector) : Prop where
  inverse : ∀ vid id, store.vidVectorid.get vid = some id ↔ store.vectoridVid.get id = some vid
  placed : ∀ entry ∈ store.hnswIndex,
    (store.vectoridVid.get entry.1).isSome ∨ entry.1 ∈ store.deletedVectorIds
  distinct : (store.hnswIndex.map Prod.fst).Nodup
  drawn : ∀ entry ∈ store.hnswIndex, entry.1 < store.nextVectorId
  live : ∀ id, (store.vectoridVid.get id).isSome → id < store.nextVectorId

section Store

variable {store : VectorStore Vector}

theorem Consistent.delete (consistent : Consistent store) (vid : Int) : Consistent (store.delete vid) := by
  unfold VectorStore.delete
  split
  · exact consistent
  rename_i vectorId found
  have mapped := (consistent.inverse vid vectorId).mp found
  refine ⟨fun other id => ?_, fun entry mem => ?_, consistent.distinct, consistent.drawn, fun id isLive => ?_⟩
  · have here := consistent.inverse other id
    simp only [get_erase]
    grind
  · have := consistent.placed entry mem
    simp only [get_erase]
    grind
  · have := consistent.live id
    simp only [get_erase] at isLive
    grind

theorem Consistent.add (consistent : Consistent store) (vid : Int) (vector : Vector) :
    Consistent (store.add vid vector) := by
  -- the vertex first loses the vector it has
  have dropped : ∃ middle : VectorStore Vector, Consistent middle ∧ middle.vidVectorid.get vid = none ∧
      store.add vid vector = { middle with
        vidVectorid := store.vidVectorid.put vid middle.nextVectorId
        vectoridVid := middle.vectoridVid.put middle.nextVectorId vid
        deletedVectorIds := middle.deletedVectorIds.erase middle.nextVectorId
        nextVectorId := middle.nextVectorId + 1
        hnswIndex := middle.hnswIndex ++ [(middle.nextVectorId, vector)] } ∧
      ∀ other, other ≠ vid → middle.vidVectorid.get other = store.vidVectorid.get other := by
    refine ⟨store.delete vid, consistent.delete vid, ?_⟩
    unfold VectorStore.add VectorStore.delete
    cases found : store.vidVectorid.get vid with
    | none => exact ⟨found, rfl, fun _ _ => rfl⟩
    | some old => exact ⟨by simp, rfl, fun other differs => by simp [differs]⟩
  obtain ⟨middle, fine, absent, same, others⟩ := dropped
  rw [same]
  have fresh : middle.vectoridVid.get middle.nextVectorId = none := by
    by_contra isLive
    exact lt_irrefl _ (fine.live _ (isSome_iff_ne_none.mpr isLive))
  refine ⟨fun other id => ?_, forall_mem_snoc (fun entry mem => ?_) (by simp), ?_, forall_mem_snoc (fun entry mem =>
    Nat.lt_succ_of_lt (fine.drawn entry mem)) (Nat.lt_succ_self _), fun id isLive => ?_⟩
  · have here := fine.inverse other id
    simp only [get_put]
    grind
  · have := fine.placed entry mem
    simp only [get_put]
    grind
  · rw [map_append]
    refine pairwise_snoc.mpr ⟨fine.distinct, fun id old => ?_⟩
    obtain ⟨entry, mem, rfl⟩ := List.mem_map.mp old
    exact ne_of_lt (fine.drawn entry mem)
  · have := fine.live id
    simp only [get_put] at isLive
    grind

theorem Consistent.knnSearch (consistent : Consistent store) {ids : List Nat}
    (found : ∀ id ∈ ids, id ∈ store.hnswIndex.map Prod.fst ∧ id ∉ store.deletedVectorIds) :
    ∃ vids, store.knnSearch ids = some vids := by
  induction ids with
  | nil => exact ⟨[], rfl⟩
  | cons id rest ih =>
    obtain ⟨indexed, notDeleted⟩ := found id mem_cons_self
    obtain ⟨entry, mem, rfl⟩ := List.mem_map.mp indexed
    obtain ⟨vid, mapped⟩ := isSome_iff_exists.mp
      ((consistent.placed entry mem).resolve_right notDeleted)
    obtain ⟨vids, searched⟩ := ih fun other mem => found other (mem_cons_of_mem _ mem)
    unfold VectorStore.knnSearch at searched
    exact ⟨vid :: vids, by simp [VectorStore.knnSearch, mapped, searched]⟩

end Store

structure Disk.Holds (disk : Disk Vector) (image : VectorStore Vector) : Prop where
  consistent : Consistent image
  vids : disk.vids = image.vidVectorid
  deleteMarks : disk.deleteMarks = image.deletedVectorIds
  file : disk.file = some image.hnswIndex

section Loading

theorem get_emplaced (entries : List (Int × Nat)) (table : Table Nat Int)
    (distinct : ∀ first ∈ entries, ∀ second ∈ entries, first.2 = second.2 → first.1 = second.1)
    (apart : ∀ entry ∈ entries, table.get entry.2 = none ∨ table.get entry.2 = some entry.1)
    (id : Nat) (vid : Int) :
    (entries.foldl Disk.emplace table).get id = some vid ↔ table.get id = some vid ∨ (vid, id) ∈ entries := by
  induction entries generalizing table with
  | nil => simp
  | cons head rest ih =>
    have added : ∀ other, (Disk.emplace table head).get other =
        if other = head.2 then some head.1 else table.get other := by
      intro other
      unfold Disk.emplace Table.contains
      grind [Table.get_put]
    rw [foldl_cons, ih _ (by grind) (by grind), added]
    grind

theorem le_maxVectorId (entries : List (Int × Nat)) (top : Nat) :
    top ≤ entries.foldl (fun top entry => max top entry.2) top ∧
      ∀ entry ∈ entries, entry.2 ≤ entries.foldl (fun top entry => max top entry.2) top := by
  induction entries generalizing top with
  | nil => simp
  | cons head rest ih =>
    grind

variable {disk : Disk Vector} {image : VectorStore Vector}

/-- What is loaded from the disk is the store that it has, with the next id drawn anew. -/
theorem Disk.Holds.loadState (holds : disk.Holds image) : ∃ store, disk.loadState = some store ∧
    Consistent store ∧ store.checkpointAppliedWalId = disk.checkpointAppliedWalId ∧
    store.vectorOf = image.vectorOf := by
  have consistent := holds.consistent
  have maps : disk.vids.entries.foldl Disk.emplace .empty = image.vectoridVid := by
    refine ext_get fun id => ext fun vid => ?_
    have distinct : ∀ first ∈ disk.vids.entries, ∀ second ∈ disk.vids.entries,
        first.2 = second.2 → first.1 = second.1 := by
      intro first left second right same
      have left := (consistent.inverse _ _).mp (holds.vids ▸ (get_eq_some_iff disk.vids).mpr left)
      have right := (consistent.inverse _ _).mp (holds.vids ▸ (get_eq_some_iff disk.vids).mpr right)
      exact some.inj (left.symm.trans (same ▸ right))
    rw [get_emplaced _ _ distinct fun _ _ => .inl rfl, ← get_eq_some_iff, holds.vids, consistent.inverse]
    simp
  obtain ⟨marks, lives⟩ := le_maxVectorId disk.vids.entries (disk.deleteMarks.sup id)
  have live : ∀ id, (image.vectoridVid.get id).isSome → id < disk.maxVectorId + 1 := by
    intro id isLive
    obtain ⟨vid, mapped⟩ := isSome_iff_exists.mp isLive
    have stored := holds.vids ▸ (consistent.inverse vid id).mpr mapped
    exact Nat.lt_succ_of_le (lives _ ((get_eq_some_iff disk.vids).mp stored))
  have loaded : disk.loadState = some { image with
      nextVectorId := disk.maxVectorId + 1, checkpointAppliedWalId := disk.checkpointAppliedWalId } := by
    rw [Disk.loadState, holds.file, map_some, maps, holds.vids, holds.deleteMarks]
  refine ⟨_, loaded, ⟨consistent.inverse, consistent.placed, consistent.distinct, ?_, live⟩, rfl, rfl⟩
  intro entry mem
  rcases consistent.placed entry mem with isLive | deleted
  · exact live _ isLive
  · have mark : entry.1 ≤ disk.deleteMarks.sup id := Finset.le_sup (f := id) (holds.deleteMarks ▸ deleted)
    exact Nat.lt_succ_of_le (mark.trans marks)

theorem Disk.Holds.writeToFile (holds : disk.Holds image) (store : VectorStore Vector) {walId : Nat}
    (other : disk.checkpointAppliedWalId ≠ some walId) : (disk.writeToFile store walId).Holds image where
  consistent := holds.consistent
  vids := holds.vids
  deleteMarks := holds.deleteMarks
  file := by
    rw [← holds.file]
    unfold Disk.file Disk.writeToFile
    grind [get_put]

theorem Disk.Holds.removeObsolete (holds : disk.Holds image) (store : VectorStore Vector) {walId : Nat}
    (last : disk.checkpointAppliedWalId = some walId) : (disk.removeObsolete store walId).Holds image := by
  unfold Disk.removeObsolete
  split
  · exact holds
  split
  · exact holds
  rename_i old _ differs
  refine ⟨holds.consistent, holds.vids, holds.deleteMarks, ?_⟩
  rw [← holds.file]
  simp [Disk.file, last, Ne.symm differs]

end Loading

/-! ## Runs -/

/-- The store is consistent, and the disk has one with the mapping of the last checkpoint. -/
structure State.Ok (state : State Vector) : Prop where
  consistent : Consistent state.store
  holds : ∃ image, state.disk.Holds image ∧ image.vectorOf = state.saved

theorem State.init_ok : (init : State Vector).Ok := by
  have consistent : Consistent (init : State Vector).store := by constructor <;> simp [init]
  exact ⟨consistent, init.store, ⟨consistent, rfl, rfl, rfl⟩, rfl⟩

section Run

variable {state : State Vector}

theorem State.recover_ok {disk : Disk Vector} {image : VectorStore Vector} (holds : disk.Holds image) :
    ∃ next, recover disk image.vectorOf = some next ∧ next.Ok ∧ next.store.vectorOf = next.saved := by
  obtain ⟨store, loaded, consistent, -, mapping⟩ := holds.loadState
  exact ⟨_, by rw [recover, loaded, map_some], ⟨consistent, image, holds, rfl⟩, mapping⟩

theorem State.Ok.step (ok : state.Ok) {action : Action Vector} (allowed : newFile state action) :
    ∃ next, state.step action = some next ∧ next.Ok ∧
      (action.isCrash → next.store.vectorOf = next.saved) := by
  obtain ⟨consistent, image, holds, mapping⟩ := ok
  have written (walId : Nat) : ((state.disk.writeToFile state.store walId).write state.store walId).Holds
      state.store := ⟨consistent, rfl, rfl, by simp [Disk.file, Disk.write, Disk.writeToFile]⟩
  cases action with
  | add vid vector => exact ⟨_, rfl, ⟨consistent.add vid vector, image, holds, mapping⟩, by simp [Action.isCrash]⟩
  | delete vid => exact ⟨_, rfl, ⟨consistent.delete vid, image, holds, mapping⟩, by simp [Action.isCrash]⟩
  | checkpoint walId removed =>
    refine ⟨_, rfl, ⟨⟨consistent.inverse, consistent.placed, consistent.distinct, consistent.drawn,
      consistent.live⟩, state.store, ?_, rfl⟩, by simp [Action.isCrash]⟩
    cases removed with
    | false => exact written walId
    | true => exact (written walId).removeObsolete _ rfl
  | crash =>
    obtain ⟨next, recovered, fine, same⟩ := recover_ok holds
    exact ⟨next, by rw [State.step, ← mapping, recovered], fine, fun _ => same⟩
  | crashAfterFile walId =>
    obtain ⟨next, recovered, fine, same⟩ := recover_ok (holds.writeToFile state.store allowed)
    exact ⟨next, by rw [State.step, ← mapping, recovered], fine, fun _ => same⟩
  | crashAfterBatch walId =>
    obtain ⟨next, recovered, fine, same⟩ := recover_ok (written walId)
    exact ⟨next, recovered, fine, fun _ => same⟩

/-- Every call and every crash ends in a consistent store, after a crash with the mapping of the last checkpoint. -/
theorem recovered_exact {actions : List (Action Vector)} (run : Runs State.step newFile .init actions state)
    {action : Action Vector} (allowed : newFile state action) : ∃ next, state.step action = some next ∧
      Consistent next.store ∧ (action.isCrash → next.store.vectorOf = next.saved) ∧
      ∀ ids : List Nat, (∀ id ∈ ids, id ∈ next.store.hnswIndex.map Prod.fst ∧ id ∉ next.store.deletedVectorIds) →
        ∃ vids, next.store.knnSearch ids = some vids := by
  have ok : state.Ok := by
    refine run.invariant State.Ok State.init_ok fun _ _ _ ok allowed taken => ?_
    obtain ⟨next, stepped, fine, -⟩ := ok.step allowed
    exact some.inj (stepped.symm.trans taken) ▸ fine
  obtain ⟨next, stepped, fine, same⟩ := ok.step allowed
  exact ⟨next, stepped, fine.consistent, same, fun _ found => fine.consistent.knnSearch found⟩

end Run

theorem recovered_exact_named : ∃ state : State Nat,
    Runs State.step newFile .init [.add 5 50, .checkpoint 1 true, .add 5 51] state ∧
    ∃ next, state.step (.crashAfterFile 2) = some next ∧ next.store.vectorOf 5 = some 50 ∧
      ∃ vids, next.store.knnSearch [1] = some vids := by
  let actions : List (Action Nat) := [.add 5 50, .checkpoint 1 true, .add 5 51]
  obtain ⟨state, executed⟩ := isSome_iff_exists.mp
    (show (execute State.step newFile .init actions).isSome by decide +kernel)
  have run := runs_of_execute executed
  have final : (execute State.step newFile .init actions).map (fun state => (state.disk.checkpointAppliedWalId,
      (state.step (.crashAfterFile 2)).map fun next =>
        (next.store.hnswIndex, decide (1 ∈ next.store.deletedVectorIds), next.store.vectorOf 5))) =
      some (some 1, some ([(1, 50)], false, some 50)) := by decide +kernel
  rw [executed, map_some, some.injEq, Prod.mk.injEq] at final
  have allowed : newFile state (.crashAfterFile 2) := by simp [newFile, final.1]
  obtain ⟨next, stepped, -, -, searches⟩ := recovered_exact run allowed
  rw [stepped, map_some, some.injEq] at final
  obtain ⟨-, index, deleted, mapping⟩ := by simpa only [Prod.mk.injEq] using final
  exact ⟨state, run, next, stepped, mapping, searches [1] (by simpa [index] using deleted)⟩

/-- Two checkpoints with one wal id: after a crash behind the file of the second, the search meets an id that
is not mapped, and the id is drawn again. -/
theorem same_file_unmapped :
    (execute State.step anyAction .init [.checkpoint 1 true, .add 5 50, .crashAfterFile 1]).map
        (fun state : State Nat => (state.store.hnswIndex, decide (1 ∈ state.store.deletedVectorIds),
          state.store.knnSearch [1], (state.store.add 6 60).hnswIndex)) =
      some ([(1, 50)], false, none, [(1, 50), (1, 60)]) := by
  decide +kernel

end RocksGraph.VectorRecovery
