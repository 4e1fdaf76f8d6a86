import Mathlib.Data.String.Basic
import RocksGraph.Foundation.Procedure
import RocksGraph.Foundation.Table
import RocksGraph.Foundation.Transition

/-! Replacing a graph by a snapshot (`graph_manager_snapshot.cc`, `graph_manager.cc`).

The graph with the id `id` lives in the directory `graph<id>`. A replacement gets
a new id and with it a new directory, and is published by one batch. Every step
that goes out to files or databases may throw. -/

set_option autoImplicit false

namespace RocksGraph.GraphReplacement

open Foundation

variable {Content : Type}

structure GraphDBMetaInfo where
  graphId : Nat
  graphName : String
  enableRaft : Bool
  deriving DecidableEq

structure GraphDB where
  path : Nat
  dbMeta : GraphDBMetaInfo
  deriving DecidableEq

/-- A graph in `graphs` is a null pointer while it is `none`. A directory without content was just created.
`given` has the ids that graphs or replacements were given; the code does not keep it. -/
structure GraphManager (Content : Type) where
  path : String
  graphs : Table String (Option GraphDB)
  metaDb : Table Nat GraphDBMetaInfo
  storedNextGraphId : Nat
  nextGraphId : Nat
  directories : Table Nat (Option Content)
  given : List Nat

structure GraphSnapshot where
  graph : String
  index : Nat
  term : Nat

/-- The downloaded checkpoint: its apply index, if it has one of the right size, and its content once the
external indexes are marked to be rebuilt. -/
structure Checkpoint (Content : Type) where
  applyIndex : Option Nat
  content : Content

inductive Step where
  | openCheckpoint | verifyChecksum | readApplyIndex | reserve | rebuildIndexes | createDirectory
  | rename | createRaftLog | openReplacement | publish | reopen
  | validate | openCreated | startRaft | writeCreated | deleteMeta
  deriving DecidableEq

abbrev Faults := Step → Option String

abbrev Code (Content : Type) := Procedure (GraphManager Content) String

def external (faults : Faults) (step : Step) : Code Content Unit :=
  match faults step with
  | none => pure ()
  | some error => throw error

def require (condition : Bool) (error : String) : Code Content Unit :=
  if condition then pure () else throw error

/-- What the handler does: the old graph is opened again when its pointer was reset. -/
def restore (faults : Faults) (name : String) (old : GraphDB) (next : Nat) (error : String) : Code Content Unit := do
  let manager ← get
  if manager.graphs.get name = some none then do
    external faults .reopen
    modify fun manager => { manager with graphs := manager.graphs.put name (some old) }
    modify fun manager => { manager with directories := manager.directories.erase next }
    throw error
  else do
    modify fun manager => { manager with directories := manager.directories.erase next }
    throw error

def install (faults : Faults) (name : String) (old : GraphDB) (next : Nat) (content : Content) : Code Content Unit := do
  external faults .rename
  modify fun manager => { manager with directories := manager.directories.put next (some content) }
  external faults .createRaftLog
  modify fun manager => { manager with graphs := manager.graphs.put name none }
  external faults .openReplacement
  external faults .publish
  let newMeta := { old.dbMeta with graphId := next }
  modify fun manager => { manager with
    metaDb := (manager.metaDb.erase old.dbMeta.graphId).put next newMeta
    graphs := manager.graphs.put name (some ⟨next, newMeta⟩) }

/-- What the call does behind the lookup of the graph and before the guarded part, with the id it reserves; `busy` says
that others still use the graph after the wait. -/
def prepare (faults : Faults) (busy : Bool) (name : String) (checkpoint : Checkpoint Content)
    (snapshot : GraphSnapshot) (old : GraphDB) : Code Content Nat := do
  require old.dbMeta.enableRaft s!"snapshot update requires a raft graph [{name}]"
  require (!busy) s!"graph [{name}] has active users; retry after releasing them"
  external faults .openCheckpoint
  external faults .verifyChecksum
  external faults .readApplyIndex
  require (checkpoint.applyIndex = some snapshot.index ∧ 0 < snapshot.index ∧ 0 < snapshot.term)
    "invalid snapshot apply index"
  let manager ← get
  let next := manager.nextGraphId
  let root := manager.path
  require (next < 2 ^ 32 - 1) "graph ID exhausted"
  require (!manager.directories.contains next) s!"replacement graph directory already exists [{root}/graph{next}]"
  external faults .reserve
  modify fun manager => { manager with
    storedNextGraphId := next + 1, nextGraphId := next + 1, given := next :: manager.given }
  external faults .rebuildIndexes
  external faults .createDirectory
  modify fun manager => { manager with directories := manager.directories.put next none }
  return next

def replace (faults : Faults) (busy : Bool) (name : String) (checkpoint : Checkpoint Content)
    (snapshot : GraphSnapshot) (old : GraphDB) : Code Content Unit := do
  let next ← prepare faults busy name checkpoint snapshot old
  tryCatch (install faults name old next checkpoint.content) (restore faults name old next)
  -- a failure to remove the old directory is only logged
  modify fun manager => { manager with directories := manager.directories.erase old.path }

def replaceGraphFromSnapshot (faults : Faults) (busy : Bool) (name : String) (checkpoint : Checkpoint Content)
    (snapshot : GraphSnapshot) : Code Content Unit := do
  require (snapshot.graph = name) s!"snapshot graph does not match [{name}]"
  let manager ← get
  match manager.graphs.get name with
  | some (some old) => replace faults busy name checkpoint snapshot old
  -- behind a null pointer the process ends
  | some none | none => throw name

/-- `CreateGraphInternal` and `CreateGraphWithId`, with the content of a new directory. The id is cut to the 32 bits of
its protobuf field. -/
def createGraph (faults : Faults) (name : String) (enableRaft : Bool) (content : Content) : Code Content Unit := do
  require (name ≠ "") "graph name should not be empty"
  require (name ≠ "system") s!"graph name [{name}] is reserved"
  let manager ← get
  let graphId := manager.nextGraphId % 2 ^ 32
  let dbMeta : GraphDBMetaInfo := ⟨graphId, name, enableRaft⟩
  require (!manager.graphs.contains name) s!"The graph already exists: {name}"
  external faults .validate
  external faults .openCreated
  modify fun manager => { manager with
    directories := manager.directories.put graphId ((manager.directories.get graphId).join.or (some content)) }
  external faults .startRaft
  external faults .writeCreated
  modify fun manager => { manager with
    metaDb := manager.metaDb.put graphId dbMeta
    storedNextGraphId := graphId + 1
    nextGraphId := max manager.nextGraphId (graphId + 1)
    graphs := manager.graphs.put name (some ⟨graphId, dbMeta⟩)
    given := graphId :: manager.given }

/-- The directory goes with the last handle of the graph. -/
def deleteGraph (faults : Faults) (name : String) : Code Content Unit := do
  let manager ← get
  match manager.graphs.get name with
  | some (some old) => do
    external faults .deleteMeta
    modify fun manager => { manager with
      metaDb := manager.metaDb.erase old.dbMeta.graphId
      graphs := manager.graphs.erase name
      directories := manager.directories.erase old.path }
  | some none | none => throw s!"No such graph: {name}"

def load (graphs : Table String (Option GraphDB)) (record : Nat × GraphDBMetaInfo) : Table String (Option GraphDB) :=
  if graphs.contains record.2.graphName then graphs
  else graphs.put record.2.graphName (some ⟨record.2.graphId, record.2⟩)

/-- `Open` on what an earlier process stored; without a graph it creates one. -/
def reopen (faults : Faults) (content : Content) (manager : GraphManager Content) : GraphManager Content :=
  let manager := { manager with
    nextGraphId := manager.storedNextGraphId
    graphs := manager.metaDb.entries.foldl load .empty }
  if manager.graphs.entries.isEmpty then ((createGraph faults "default" false content).outcome manager).2 else manager

inductive Action (Content : Type) where
  | create (faults : Faults) (name : String) (enableRaft : Bool) (content : Content)
  | replace (faults : Faults) (busy : Bool) (name : String) (checkpoint : Checkpoint Content) (snapshot : GraphSnapshot)
  | delete (faults : Faults) (name : String)
  | restart (faults : Faults) (content : Content)

def step (manager : GraphManager Content) : Action Content → Option (GraphManager Content)
  | .create faults name enableRaft content => some ((createGraph faults name enableRaft content).outcome manager).2
  | .replace faults busy name checkpoint snapshot =>
    some ((replaceGraphFromSnapshot faults busy name checkpoint snapshot).outcome manager).2
  | .delete faults name => some ((deleteGraph faults name).outcome manager).2
  | .restart faults content => some (reopen faults content manager)

def init (path : String) : GraphManager Content := ⟨path, .empty, .empty, 1, 1, .empty, []⟩

/-- The guarded part comes to the opening of the replacement and throws, so that the handler finds the pointer reset. -/
def resets (faults : Faults) : Bool :=
  !(faults .rename).isSome && !(faults .createRaftLog).isSome &&
    ((faults .openReplacement).isSome || (faults .publish).isSome)

def entered (faults : Faults) (busy : Bool) (name : String) (checkpoint : Checkpoint Content)
    (snapshot : GraphSnapshot) (manager : GraphManager Content) : Bool :=
  snapshot.graph = name && match manager.graphs.get name with
    | some (some old) => ((prepare faults busy name checkpoint snapshot old).outcome manager).1.isOk
    | _ => false

/-- The call gets to the guarded part, which throws with the pointer reset, and the old graph cannot be opened again. -/
def loses (faults : Faults) (busy : Bool) (name : String) (checkpoint : Checkpoint Content)
    (snapshot : GraphSnapshot) (manager : GraphManager Content) : Bool :=
  entered faults busy name checkpoint snapshot manager && resets faults && (faults .reopen).isSome

/-- No call loses its graph, and the ids fit their field. -/
def reopens (manager : GraphManager Content) : Action Content → Prop
  | .replace faults busy name checkpoint snapshot => loses faults busy name checkpoint snapshot manager = false
  | .create _ _ _ _ => manager.nextGraphId < 2 ^ 32
  | .restart _ _ => manager.storedNextGraphId < 2 ^ 32
  | .delete _ _ => True

section Rules

variable {Value : Type} {before : GraphManager Content → Prop} {next : Code Content Value}
  {after : Value → GraphManager Content → Prop} {thrown : String → GraphManager Content → Prop}

theorem meets_external {faults : Faults} {step : Step}
    (rest : (faults step).isSome = false → Meets before next after thrown)
    (throws : (faults step).isSome → ∀ error manager, before manager → thrown error manager) :
    Meets before (external faults step >>= fun _ => next) after thrown := by
  unfold external
  cases fault : faults step with
  | none => exact Meets.bind (Meets.pure fun _ holds => holds) fun _ : Unit => rest (by simp [fault])
  | some error => exact fun manager holds => throws (by simp [fault]) error manager holds

theorem meets_require {condition : Bool} {error : String} (rest : condition → Meets before next after thrown)
    (throws : ∀ error manager, before manager → thrown error manager) :
    Meets before (require condition error >>= fun _ => next) after thrown := by
  cases condition with
  | true => exact Meets.bind (Meets.pure fun _ holds => holds) fun _ : Unit => rest rfl
  | false => exact fun manager holds => throws error manager holds

theorem meets_modify {manager : GraphManager Content} {change : GraphManager Content → GraphManager Content}
    (rest : Meets (· = change manager) next after thrown) :
    Meets (· = manager) (modify change >>= fun _ => next) after thrown :=
  Meets.bind (Meets.modify fun _ same => congrArg change same) fun _ : Unit => rest

end Rules

/-- Where the guarded part may be left: nothing is published, and the pointer may have been reset. -/
structure Interrupted (manager : GraphManager Content) (name : String) (next : Nat) (reset : Bool)
    (now : GraphManager Content) : Prop where
  graphs : now.graphs = if reset then manager.graphs.put name none else manager.graphs
  same : now = { manager with graphs := now.graphs, directories := now.directories }
  directories : ∀ id, id ≠ next → now.directories.get id = manager.directories.get id

section Call

variable {faults : Faults} {name : String} {old : GraphDB} {manager : GraphManager Content}

theorem install_meets (next : Nat) (content : Content) : Meets (· = manager) (install faults name old next content)
    (fun _ now => resets faults = false ∧ now = { manager with
      directories := manager.directories.put next (some content)
      metaDb := (manager.metaDb.erase old.dbMeta.graphId).put next { old.dbMeta with graphId := next }
      graphs := (manager.graphs.put name none).put name (some ⟨next, { old.dbMeta with graphId := next }⟩) })
    (fun _ => Interrupted manager name next (resets faults)) := by
  have moved : ∀ id, id ≠ next → (manager.directories.put next (some content)).get id = manager.directories.get id :=
    fun id differs => by simp [differs]
  unfold resets
  apply meets_external _ fun fault _ now same => same ▸ ⟨by grind, rfl, fun _ _ => rfl⟩
  intro renamed
  apply meets_modify
  apply meets_external _ fun fault _ now same => same ▸ ⟨by grind, rfl, moved⟩
  intro logged
  apply meets_modify
  apply meets_external _ fun fault _ now same => same ▸ ⟨by grind, rfl, moved⟩
  intro opened
  apply meets_external _ fun fault _ now same => same ▸ ⟨by grind, rfl, moved⟩
  intro published
  exact Meets.modify fun now same => same ▸ ⟨by simp_all, rfl⟩

theorem restore_meets (next : Nat) (reset : Bool) (error : String) (found : manager.graphs.get name = some (some old)) :
    Meets (Interrupted manager name next reset) (restore faults name old next error) (fun _ _ => False)
      (fun _ now => if reset && (faults .reopen).isSome then now.graphs.get name = some none
        else Interrupted manager name next false now) := by
  apply Meets.read
  intro now interrupted
  have removed : ∀ id, id ≠ next → (now.directories.erase next).get id = manager.directories.get id := by
    intro id differs
    rw [Table.get_erase, if_neg differs, interrupted.directories id differs]
  have graphs := interrupted.graphs
  cases reset with
  | false =>
    rw [if_neg (by simp [graphs, found])]
    apply meets_modify
    exact Meets.throw fun last same => same ▸ ⟨graphs, by rw [interrupted.same], removed⟩
  | true =>
    have null : now.graphs.get name = some none := by simp [graphs]
    rw [if_pos null]
    -- the old graph is put where it was
    have again : now.graphs.put name (some old) = manager.graphs := by
      refine Table.ext_get fun other => ?_
      simp only [graphs, if_true, Table.get_put]
      split
      next here =>
        rw [here, found]
      · rfl
    apply meets_external _ fun fault _ last same => by simpa [fault, same] using null
    intro opened
    apply meets_modify
    apply meets_modify
    refine Meets.throw fun last same => ?_
    rw [if_neg (by simp_all), same]
    exact ⟨again, by rw [interrupted.same], removed⟩

def Numbered (manager next : GraphManager Content) : Prop :=
  next.storedNextGraphId = next.nextGraphId ∧
  (next.nextGraphId = manager.nextGraphId ∧ next.given = manager.given ∨
    next.nextGraphId = manager.nextGraphId + 1 ∧ next.given = manager.nextGraphId :: manager.given)

structure Kept (manager next : GraphManager Content) : Prop where
  graphs : next.graphs = manager.graphs
  metaDb : next.metaDb = manager.metaDb
  directories : ∀ id, id ≠ manager.nextGraphId → next.directories.get id = manager.directories.get id
  numbered : Numbered manager next

/-- The graph was replaced by one with the next id, and no other one has changed. -/
structure Replaced (manager : GraphManager Content) (name : String) (old : GraphDB) (content : Content)
    (next : GraphManager Content) : Prop where
  found : manager.graphs.get name = some (some old)
  graphs : next.graphs = manager.graphs.put name
    (some ⟨manager.nextGraphId, { old.dbMeta with graphId := manager.nextGraphId }⟩)
  metaDb : next.metaDb = (manager.metaDb.erase old.dbMeta.graphId).put manager.nextGraphId
    { old.dbMeta with graphId := manager.nextGraphId }
  directory : next.directories.get manager.nextGraphId = some (some content)
  directories : ∀ id, id ≠ manager.nextGraphId → id ≠ old.path →
    next.directories.get id = manager.directories.get id
  stored : next.storedNextGraphId = next.nextGraphId
  numbered : next.nextGraphId = manager.nextGraphId + 1 ∧ next.given = manager.nextGraphId :: manager.given

def reserved (manager : GraphManager Content) : GraphManager Content := { manager with
  storedNextGraphId := manager.nextGraphId + 1, nextGraphId := manager.nextGraphId + 1
  given := manager.nextGraphId :: manager.given
  directories := manager.directories.put manager.nextGraphId none }

theorem prepare_meets (busy : Bool) (checkpoint : Checkpoint Content) (snapshot : GraphSnapshot)
    (stored : manager.storedNextGraphId = manager.nextGraphId) :
    Meets (· = manager) (prepare faults busy name checkpoint snapshot old)
      (fun next now => next = manager.nextGraphId ∧ now = reserved manager) (fun _ => Kept manager) := by
  have unchanged : ∀ (_ : String) now, now = manager → Kept manager now := by
    intro _ now same
    rw [same]
    exact ⟨rfl, rfl, fun _ _ => rfl, stored, .inl ⟨rfl, rfl⟩⟩
  apply meets_require _ unchanged
  intro _
  apply meets_require _ unchanged
  intro _
  apply meets_external _ fun _ => unchanged
  intro _
  apply meets_external _ fun _ => unchanged
  intro _
  apply meets_external _ fun _ => unchanged
  intro _
  apply meets_require _ unchanged
  intro _
  apply Meets.read
  rintro _ rfl
  rename_i manager
  apply meets_require _ unchanged
  intro _
  apply meets_require _ unchanged
  intro _
  apply meets_external _ fun _ => unchanged
  intro _
  apply meets_modify
  have onlyReserved : ∀ (_ : String) now, now = { manager with
      storedNextGraphId := manager.nextGraphId + 1, nextGraphId := manager.nextGraphId + 1
      given := manager.nextGraphId :: manager.given } → Kept manager now :=
    fun _ now same => same ▸ ⟨rfl, rfl, fun _ _ => rfl, rfl, .inr ⟨rfl, rfl⟩⟩
  apply meets_external _ fun _ => onlyReserved
  intro _
  apply meets_external _ fun _ => onlyReserved
  intro _
  apply meets_modify
  exact Meets.pure fun now same => ⟨rfl, same⟩

theorem guarded_meets (content : Content) (found : manager.graphs.get name = some (some old))
    (older : old.path < manager.nextGraphId) : Meets (· = reserved manager) (do
      tryCatch (install faults name old manager.nextGraphId content) (restore faults name old manager.nextGraphId)
      modify fun manager => { manager with directories := manager.directories.erase old.path })
    (fun _ next => resets faults = false ∧ Replaced manager name old content next)
    (fun _ next => if resets faults && (faults .reopen).isSome then next.graphs.get name = some none
      else Kept manager next) := by
  have kept : (reserved manager).graphs.get name = some (some old) := found
  refine Meets.bind (Meets.attempt (install_meets _ _) fun error =>
    (restore_meets _ _ error kept).weaken (fun _ holds => holds) (fun _ _ none => none.elim) ?_) ?_
  · intro _ now interrupted
    by_cases lost : (resets faults && (faults .reopen).isSome) = true
    · rwa [if_pos lost] at interrupted ⊢
    rw [if_neg lost] at interrupted ⊢
    refine ⟨interrupted.graphs, by rw [interrupted.same]; rfl, fun id differs => ?_, ?_⟩
    · rw [interrupted.directories id differs, reserved, Table.get_put, if_neg differs]
    · rw [interrupted.same]
      exact ⟨rfl, .inr ⟨rfl, rfl⟩⟩
  · intro _
    refine Meets.modify fun now ⟨whole, same⟩ => ⟨whole, ?_⟩
    have differs : manager.nextGraphId ≠ old.path := ne_of_gt older
    subst same
    refine ⟨found, Table.ext_get fun other => ?_, rfl, ?_, fun id new other => ?_, rfl, rfl, rfl⟩
    · simp only [reserved, Table.get_put]
      split <;> rfl
    · simp [differs]
    · simp [reserved, new, other]

theorem replace_meets (busy : Bool) (checkpoint : Checkpoint Content) (snapshot : GraphSnapshot)
    (stored : manager.storedNextGraphId = manager.nextGraphId) (found : manager.graphs.get name = some (some old))
    (older : old.path < manager.nextGraphId) :
    let ready := ((prepare faults busy name checkpoint snapshot old).outcome manager).1.isOk
    Meets (· = manager) (replace faults busy name checkpoint snapshot old)
      (fun _ next => (ready && resets faults) = false ∧ Replaced manager name old checkpoint.content next)
      (fun _ next => if ready && resets faults && (faults .reopen).isSome then next.graphs.get name = some none
        else Kept manager next) := by
  have prepared := @prepare_meets _ faults name old _ busy checkpoint snapshot stored manager rfl
  rcases outcome : (prepare faults busy name checkpoint snapshot old).outcome manager with ⟨error | next, now⟩ <;>
    rw [outcome] at prepared
  · have failed : Meets (· = manager) (prepare faults busy name checkpoint snapshot old) (fun _ _ => False)
        fun _ => Kept manager := by
      rintro _ rfl
      rw [outcome]
      exact prepared
    simp only [Except.isOk, Except.toBool, Bool.false_and]
    exact failed.bind fun _ _ none => none.elim
  · obtain ⟨rfl, rfl⟩ := prepared
    have ready : Meets (· = manager) (prepare faults busy name checkpoint snapshot old)
        (fun next now => next = manager.nextGraphId ∧ now = reserved manager) fun _ _ => False := by
      rintro _ rfl
      rw [outcome]
      exact ⟨rfl, rfl⟩
    refine (ready.weaken (fun _ same => same) (fun _ _ => id) fun _ _ none => none.elim).bind ?_
    rintro _ _ ⟨rfl, rfl⟩
    exact guarded_meets checkpoint.content found older _ rfl

theorem replaceGraphFromSnapshot_meets (busy : Bool) (checkpoint : Checkpoint Content) (snapshot : GraphSnapshot)
    (stored : manager.storedNextGraphId = manager.nextGraphId)
    (older : ∀ old, manager.graphs.get name = some (some old) → old.path < manager.nextGraphId) :
    Meets (· = manager) (replaceGraphFromSnapshot faults busy name checkpoint snapshot)
      (fun _ next => loses faults busy name checkpoint snapshot manager = false ∧
        ∃ old, Replaced manager name old checkpoint.content next)
      (fun _ next => if loses faults busy name checkpoint snapshot manager then next.graphs.get name = some none
        else Kept manager next) := by
  have unchanged : Kept manager manager := ⟨rfl, rfl, fun _ _ => rfl, stored, .inl ⟨rfl, rfl⟩⟩
  by_cases same : snapshot.graph = name
  · rw [replaceGraphFromSnapshot, require, if_pos (by simpa using same), pure_bind]
    apply Meets.read
    rintro _ rfl
    rename_i manager
    cases found : manager.graphs.get name with
    | none => exact Meets.throw (by simpa [loses, entered, found] using unchanged)
    | some graph =>
      cases graph with
      | none => exact Meets.throw (by simpa [loses, entered, found] using unchanged)
      | some old =>
        simp only [loses, entered, found, same, decide_true, Bool.true_and]
        refine (replace_meets busy checkpoint snapshot stored found (older old found)).weaken (fun _ same => same) ?_
          fun _ _ thrown => thrown
        rintro _ next ⟨whole, replaced⟩
        exact ⟨by rw [whole, Bool.false_and], old, replaced⟩
  · rw [replaceGraphFromSnapshot, require, if_neg (by simpa using same)]
    rw [show loses faults busy name checkpoint snapshot manager = false by simp [loses, entered, same]]
    exact fun now here => here ▸ unchanged

/-- What holds between calls: ids are given once, and graphs, open or published, have ids that were given. -/
structure Ok (manager : GraphManager Content) : Prop where
  stored : manager.storedNextGraphId = manager.nextGraphId
  once : manager.given.Nodup
  given : ∀ id ∈ manager.given, id < manager.nextGraphId
  opened : ∀ name graph, manager.graphs.get name = some (some graph) → graph.path < manager.nextGraphId
  published : ∀ id info, manager.metaDb.get id = some info → info.graphId < manager.nextGraphId

variable {next : GraphManager Content}

theorem Ok.numbered (ok : Ok manager) (numbered : Numbered manager next)
    (opened : ∀ name graph, next.graphs.get name = some (some graph) →
      (∃ other, manager.graphs.get other = some (some graph)) ∨ graph.path < next.nextGraphId)
    (published : ∀ id info, next.metaDb.get id = some info →
      manager.metaDb.get id = some info ∨ info.graphId < next.nextGraphId) : Ok next := by
  obtain ⟨stored, ids⟩ := numbered
  have grows : manager.nextGraphId ≤ next.nextGraphId := by omega
  refine ⟨stored, ?_, ?_, fun name graph found => ?_, fun id info found => ?_⟩
  · rcases ids with ⟨-, same⟩ | ⟨-, more⟩
    · exact same ▸ ok.once
    · rw [more]
      exact List.nodup_cons.mpr ⟨fun mem => lt_irrefl _ (ok.given _ mem), ok.once⟩
  · rcases ids with ⟨-, same⟩ | ⟨up, more⟩
    · exact same ▸ fun id mem => lt_of_lt_of_le (ok.given id mem) grows
    · rw [more, up]
      exact List.forall_mem_cons.mpr ⟨Nat.lt_succ_self _, fun id mem => Nat.lt_succ_of_lt (ok.given id mem)⟩
  · rcases opened name graph found with ⟨other, before⟩ | less
    · exact lt_of_lt_of_le (ok.opened other graph before) grows
    · exact less
  · rcases published id info found with before | less
    · exact lt_of_lt_of_le (ok.published id info before) grows
    · exact less

theorem Ok.kept (ok : Ok manager) (kept : Kept manager next) : Ok next :=
  ok.numbered kept.numbered (fun name _ found => .inl ⟨name, kept.graphs ▸ found⟩) fun _ _ found =>
    .inl (kept.metaDb ▸ found)

theorem Ok.added (ok : Ok manager) (stored : next.storedNextGraphId = next.nextGraphId)
    (numbered : next.nextGraphId = manager.nextGraphId + 1 ∧ next.given = manager.nextGraphId :: manager.given)
    {info : GraphDBMetaInfo} (own : info.graphId = manager.nextGraphId)
    (graphs : next.graphs = manager.graphs.put name (some ⟨manager.nextGraphId, info⟩))
    (published : ∀ id found, next.metaDb.get id = some found → manager.metaDb.get id = some found ∨ found = info) :
    Ok next := by
  refine ok.numbered ⟨stored, .inr numbered⟩ (fun other graph found => ?_) fun id found isFound => ?_
  · rw [graphs, Table.get_put] at found
    split at found
    · cases found
      exact .inr (numbered.1 ▸ Nat.lt_succ_self _)
    · exact .inl ⟨other, found⟩
  · refine (published id found isFound).imp_right ?_
    rintro rfl
    omega

theorem Ok.replaced (ok : Ok manager) {content : Content} (replaced : Replaced manager name old content next) :
    Ok next := by
  refine ok.added replaced.stored replaced.numbered rfl replaced.graphs fun id info found => ?_
  rw [replaced.metaDb, Table.get_put] at found
  split at found
  · exact .inr (Option.some.inj found).symm
  · exact .inl (Table.get_erase_eq_some.mp found).2

theorem createGraph_meets (ok : Ok manager) (few : manager.nextGraphId < 2 ^ 32) (enableRaft : Bool)
    (content : Content) :
    Meets (· = manager) (createGraph faults name enableRaft content) (fun _ => Ok) (fun _ => Ok) := by
  have unchanged : ∀ (_ : String) now, now = manager → Ok now := fun _ now same => same ▸ ok
  have opened (directories : Table Nat (Option Content)) : ∀ (_ : String) now,
      now = { manager with directories } → Ok now := by
    rintro _ _ rfl
    exact ⟨ok.stored, ok.once, ok.given, ok.opened, ok.published⟩
  apply meets_require _ unchanged
  intro _
  apply meets_require _ unchanged
  intro _
  apply Meets.read
  rintro _ rfl
  rename_i manager
  rw [Nat.mod_eq_of_lt few]
  apply meets_require _ unchanged
  intro _
  apply meets_external _ fun _ => unchanged
  intro _
  apply meets_external _ fun _ => unchanged
  intro _
  apply meets_modify
  apply meets_external _ fun _ => opened _
  intro _
  apply meets_external _ fun _ => opened _
  intro _
  refine Meets.modify fun now same => ?_
  have up : max manager.nextGraphId (manager.nextGraphId + 1) = manager.nextGraphId + 1 := by omega
  subst same
  refine ok.added up.symm ⟨up, rfl⟩ rfl rfl fun id info found => ?_
  rw [Table.get_put] at found
  split at found
  · exact .inr (Option.some.inj found).symm
  · exact .inl found

theorem deleteGraph_meets (ok : Ok manager) :
    Meets (· = manager) (deleteGraph faults name) (fun _ => Ok) (fun _ => Ok) := by
  have unchanged : ∀ (_ : String) now, now = manager → Ok now := fun _ now same => same ▸ ok
  apply Meets.read
  rintro _ rfl
  split
  · apply meets_external _ fun _ => unchanged
    intro _
    refine Meets.modify fun now same => ?_
    subst same
    exact ok.numbered ⟨ok.stored, .inl ⟨rfl, rfl⟩⟩
      (fun other _ found => .inl ⟨other, (Table.get_erase_eq_some.mp found).2⟩)
      fun _ _ found => .inl (Table.get_erase_eq_some.mp found).2
  · exact Meets.throw (unchanged "")
  · exact Meets.throw (unchanged "")

theorem Ok.reopen (ok : Ok manager) (few : manager.storedNextGraphId < 2 ^ 32) (content : Content) :
    Ok (reopen faults content manager) := by
  let Below (graphs : Table String (Option GraphDB)) : Prop :=
    ∀ name graph, graphs.get name = some (some graph) → graph.path < manager.nextGraphId
  have opened : Below (manager.metaDb.entries.foldl load .empty) := by
    refine List.foldlRecOn _ _ (fun _ _ found => nomatch found) fun graphs before record listed => ?_
    unfold load
    split
    · exact before
    · intro name graph found
      rw [Table.get_put] at found
      split at found
      · cases found
        exact ok.published record.1 record.2 ((Table.get_eq_some_iff _).mpr listed)
      · exact before name graph found
  have loaded : Ok { manager with
      nextGraphId := manager.storedNextGraphId
      graphs := manager.metaDb.entries.foldl load .empty } := by
    rw [ok.stored]
    exact ⟨rfl, ok.once, ok.given, opened, ok.published⟩
  unfold GraphReplacement.reopen
  refine iteInduction (fun _ => ?_) fun _ => loaded
  exact (createGraph_meets loaded few false content).leaves rfl

end Call

/-- In every run in which no call loses its graph, ids are given once. Then a replacement that throws leaves every
graph as it was, and one that returns has put the new graph in the place of the old one, unless it loses its graph. -/
theorem replacement_atomic {path : String} {actions : List (Action Content)} {manager : GraphManager Content}
    (run : Runs step reopens (init path) actions manager) (faults : Faults)
    (busy : Bool) (name : String) (checkpoint : Checkpoint Content) (snapshot : GraphSnapshot) :
    manager.given.Nodup ∧ (Meets (· = manager) (replaceGraphFromSnapshot faults busy name checkpoint snapshot)
      (fun _ next => ∃ old, Replaced manager name old checkpoint.content next)
      (fun _ next => Kept manager next ∧ ∀ old, manager.graphs.get name = some (some old) →
        next.graphs.get name = some (some old) ∧
        next.directories.get old.path = manager.directories.get old.path) ↔
      loses faults busy name checkpoint snapshot manager = false) := by
  have ok : Ok manager := by
    refine run.invariant Ok ⟨rfl, .nil, by simp [init], by simp [init], by simp [init]⟩ ?_
    intro manager action next ok allowed taken
    cases action with
    | create faults name enableRaft content =>
      cases taken
      exact (createGraph_meets ok allowed enableRaft content).leaves rfl
    | replace faults busy name checkpoint snapshot =>
      cases taken
      have meets := @replaceGraphFromSnapshot_meets _ faults name _ busy checkpoint snapshot ok.stored (ok.opened name)
      rw [show loses faults busy name checkpoint snapshot manager = false from allowed] at meets
      refine (meets.weaken (fun _ same => same) ?_ fun _ _ kept => ok.kept kept).leaves rfl
      rintro _ next ⟨-, old, replaced⟩
      exact ok.replaced replaced
    | delete faults name =>
      cases taken
      exact (deleteGraph_meets ok).leaves rfl
    | restart faults content =>
      cases taken
      exact ok.reopen allowed content
  have meets := @replaceGraphFromSnapshot_meets _ faults name _ busy checkpoint snapshot ok.stored (ok.opened name)
  refine ⟨ok.once, fun atomic => ?_, fun whole => ?_⟩
  · -- a lost graph is one that the call does not leave as it was
    by_contra lost
    rw [Bool.not_eq_false] at lost
    have isOpen : ∃ old, manager.graphs.get name = some (some old) := by
      simp only [loses, entered, Bool.and_eq_true] at lost
      grind
    obtain ⟨old, found⟩ := isOpen
    have first := meets manager rfl
    have second := atomic manager rfl
    rcases outcome : (replaceGraphFromSnapshot faults busy name checkpoint snapshot).outcome manager with
      ⟨error | value, next⟩ <;> rw [outcome] at first second <;> simp only [lost] at first
    · rw [if_pos trivial, (second.2 old found).1] at first
      cases first
    · cases first.1
  · rw [whole] at meets
    refine meets.weaken (fun _ same => same) (fun _ _ replaced => replaced.2) ?_
    intro _ next kept
    refine ⟨kept, fun old found => ⟨kept.graphs ▸ found, kept.directories _ ?_⟩⟩
    exact ne_of_lt (ok.opened name old found)

def created : List (Action Nat) := [.create (fun _ => none) "g" true 7]

def failing (steps : List Step) : Faults := fun step => if step ∈ steps then some "IO error" else none

/-- The replacement cannot be moved nor the old graph be opened, which is not needed. -/
theorem replacement_atomic_failing : ∃ manager : GraphManager Nat, Runs step reopens (init "") created manager ∧
    ((replaceGraphFromSnapshot (failing [.rename, .reopen]) false "g" ⟨some 5, 8⟩ ⟨"g", 5, 1⟩).outcome
      manager).2.graphs.get "g" = some (some ⟨1, 1, "g", true⟩) := by
  have run : Runs step reopens (init "") created
      ((createGraph (fun _ => none) "g" true 7).outcome (init "")).2 := .snoc .nil (Nat.one_lt_two_pow (by decide)) rfl
  have atomic := (replacement_atomic run (failing [.rename, .reopen]) false "g" ⟨some 5, 8⟩ ⟨"g", 5, 1⟩).2.mpr rfl _ rfl
  exact ⟨_, run, (atomic.2 _ rfl).1⟩

/-- The replacement and the old graph cannot be opened: the name is left with a null pointer. -/
theorem replacement_null : (execute step anyAction (init "") (created ++
    [.replace (failing [.openReplacement, .reopen]) false "g" ⟨some 5, 8⟩ ⟨"g", 5, 1⟩])).map
      (fun manager => manager.graphs.get "g") = some (some none) := by
  rfl

end RocksGraph.GraphReplacement
