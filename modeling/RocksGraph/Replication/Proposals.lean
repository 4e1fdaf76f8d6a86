import Mathlib.Algebra.GroupWithZero.Nat
import RocksGraph.Foundation.SharedLog
import RocksGraph.Foundation.Table
import RocksGraph.Foundation.Transition

/-! What a proposer is told about its proposal (`raft_driver.h`, `raft_driver.cc`).

A call of `Propose` comes with a request id, leaves its promises under that id
and posts the proposal to the raft thread. The entry that carries the id
resolves the promises when it is handed out and applied. A call is known here
by its number, which the code does not have: it compares request ids. -/

set_option autoImplicit false

namespace RocksGraph.Proposals

open Foundation List Option SharedLog

/-- `Generator`; the node id takes the upper 16 bits and the suffix the others. -/
structure Generator where
  nodeBits : Nat
  suffix : Nat
  deriving DecidableEq, Repr

namespace Generator

def tsLen : Nat := 5 * 8

def cntLen : Nat := 8

def suffixLen : Nat := tsLen + cntLen

def lowbit (value bits : Nat) : Nat := value % 2 ^ bits

def reset (id time : Nat) : Generator where
  nodeBits := (id * 2 ^ suffixLen) % 2 ^ 64
  suffix := lowbit time tsLen * 2 ^ cntLen

def next (generator : Generator) : Nat × Generator :=
  let suffix := (generator.suffix + 1) % 2 ^ 64
  (generator.nodeBits ||| lowbit suffix suffixLen, { generator with suffix })

end Generator

/-- An entry of the log. Empty entries have no request id, and the entries of
the bootstrap come from no call. -/
structure Record where
  id : Option Nat
  call : Option Nat
  deriving DecidableEq, Repr

def Record.empty : Record := ⟨none, none⟩

/-- The conf change of an initial peer; its id is the default. -/
def Record.bootstrap : Record := ⟨some 0, none⟩

/-- The entry of a proposal. A conf change that comes too early is kept as an
empty entry. -/
def Record.proposed (uuid call : Nat) (kept : Bool) : Record :=
  if kept then ⟨some uuid, some call⟩ else .empty

/-- The two promises of a `PromiseContext`. -/
inductive Promise where
  | commited
  | applied
  deriving DecidableEq, Repr

inductive Result where
  | ok (index : Nat)
  | error
  deriving DecidableEq, Repr

structure Outcome where
  promise : Promise
  call : Nat
  result : Result
  deriving DecidableEq, Repr

/-- A running driver. `drawn` are ids whose `Propose` is still to come, `posted`
the proposals that wait for the raft thread with their id and call, and
`operations` the contexts of the entries that wait for the apply thread. -/
structure Driver where
  generator : Generator
  stopped : Bool
  drawn : List Nat
  pending : Table Nat Nat
  posted : List (Nat × Nat)
  handedOut : Nat
  operations : List (Option Nat)

structure Node where
  applied : Nat
  driver : Option Driver

/-- `calls` has the node of every call and `outcomes` the promises with a value. -/
structure State where
  shared : SharedLog Nat Record
  nodes : Table Nat Node
  calls : List Nat
  outcomes : List Outcome

def State.init (peers : Nat) : State where
  shared := {
    leader := none
    log := List.replicate peers .bootstrap
    committed := peers
    past := []
    bounded := by rw [length_replicate] }
  nodes := .empty
  calls := []
  outcomes := []

/-- What the raft does with a posted proposal; a deposed leader extends the log
it had. -/
inductive Stepped where
  | refused
  | appended (kept : Bool)
  | forked (branch : List Record) (kept : Bool)
  deriving DecidableEq, Repr

inductive Action where
  | elect (node : Nat) (branch : List Record)
  | commit (upto : Nat)
  | start (node time : Nat)
  | crash (node : Nat)
  | stop (node : Nat)
  | draw (node : Nat)
  | propose (node uuid : Nat) (accepted : Bool)
  | stepPosted (node : Nat) (stepped : Stepped)
  | handOut (node : Nat)
  | applyNext (node : Nat)
  | applyFails (node : Nat)
  | timeout (node uuid : Nat)
  | loseLeadership (node : Nat)
  deriving DecidableEq, Repr

namespace State

def driver (state : State) (node : Nat) : Option Driver := (state.nodes.get node).bind Node.driver

def applied (state : State) (node : Nat) : Nat := ((state.nodes.get node).map Node.applied).getD 0

def setNode (state : State) (node applied : Nat) (driver : Option Driver) : State :=
  { state with nodes := state.nodes.put node ⟨applied, driver⟩ }

def setDriver (state : State) (node : Nat) (driver : Driver) : State :=
  state.setNode node (state.applied node) (some driver)

/-- `SetCommited` and `SetApplied`: only the first value counts. -/
def set (state : State) (promise : Promise) (call : Nat) (result : Result) : State :=
  if state.outcomes.any fun outcome => outcome.promise = promise ∧ outcome.call = call then state
  else { state with outcomes := state.outcomes ++ [⟨promise, call, result⟩] }

def setError (state : State) (call : Nat) : State :=
  (state.set .commited call .error).set .applied call .error

/-- `Propose`. A refused call (driver stopped, proposal too large, too many
pending) is told so at once, and an id that is pending keeps its promises. -/
def propose (state : State) (node uuid : Nat) (driver : Driver) (accepted : Bool) : Option State :=
  let call := state.calls.length
  let driver := { driver with drawn := driver.drawn.erase uuid }
  let state := { state with calls := state.calls ++ [node] }
  if accepted then
    if driver.stopped then none
    else some (state.setDriver node { driver with
      pending := if driver.pending.contains uuid then driver.pending else driver.pending.put uuid call
      posted := driver.posted ++ [(uuid, call)] })
  else some ((state.setDriver node driver).setError call)

/-- The part of `Propose` that is posted to the raft thread. -/
def stepPosted (state : State) (node : Nat) (driver : Driver) (stepped : Stepped) : Option State :=
  match driver.posted with
  | [] => none
  | (uuid, call) :: posted =>
    let left := state.setDriver node { driver with posted }
    if driver.pending.get uuid ≠ some call then some left
    else match stepped with
      | .refused =>
        some ((state.setDriver node { driver with posted, pending := driver.pending.erase uuid }).setError call)
      | .appended kept =>
        if driver.stopped = false ∧ state.shared.leader = some node then
          some { left with shared := state.shared.append (.proposed uuid call kept) }
        else none
      | .forked branch kept =>
        if driver.stopped = false then
          (state.shared.fork branch (.proposed uuid call kept)).map fun shared => { left with shared }
        else none

/-- `PrepareApplyOperations` for the next committed entry. -/
def handOut (state : State) (node : Nat) (driver : Driver) : Option State :=
  (state.shared.committedLog[driver.handedOut]?).map fun record =>
    let context := record.id.bind driver.pending.get
    let state := state.setDriver node { driver with
      pending := match record.id, context with
        | some uuid, some _ => driver.pending.erase uuid
        | _, _ => driver.pending
      handedOut := driver.handedOut + 1
      operations := driver.operations ++ [context] }
    match context with
    | some call => state.set .commited call (.ok (driver.handedOut + 1))
    | none => state

def applyNext (state : State) (node : Nat) (driver : Driver) : Option State :=
  match driver.operations with
  | [] => none
  | context :: operations =>
    let index := state.applied node + 1
    let state := state.setNode node index (some { driver with operations })
    some (match context with
      | some call => state.set .applied call (.ok index)
      | none => state)

/-- `Apply` when the operation throws: the process aborts. -/
def applyFails (state : State) (node : Nat) (driver : Driver) : Option State :=
  match driver.operations with
  | [] => none
  | context :: _ =>
    let state := state.setNode node (state.applied node) none
    some (match context with
      | some call => state.set .applied call .error
      | none => state)

def rejectPendingPromises (state : State) (node : Nat) (driver : Driver) : State :=
  (driver.pending.entries.map Prod.snd).foldl setError (state.setDriver node { driver with pending := .empty })

def step (state : State) : Action → Option State
  | .elect node branch =>
    (state.shared.elect node branch).map fun shared => { state with shared := shared.append .empty }
  | .commit upto => (state.shared.commit upto).map fun shared => { state with shared }
  | .start node time =>
    if (state.driver node).isSome then none
    else
      let applied := state.applied node
      some (state.setNode node applied (some ⟨.reset node time, false, [], .empty, [], applied, []⟩))
  | .crash node => some (state.setNode node (state.applied node) none)
  | .stop node =>
    (state.driver node).map fun driver => state.rejectPendingPromises node { driver with stopped := true }
  | .draw node =>
    (state.driver node).map fun driver =>
      let (uuid, generator) := driver.generator.next
      state.setDriver node { driver with generator, drawn := driver.drawn ++ [uuid] }
  | .propose node uuid accepted =>
    (state.driver node).bind fun driver =>
      if uuid ∈ driver.drawn then state.propose node uuid driver accepted else none
  | .stepPosted node stepped =>
    (state.driver node).bind fun driver => state.stepPosted node driver stepped
  | .handOut node => (state.driver node).bind fun driver => state.handOut node driver
  | .applyNext node => (state.driver node).bind fun driver => state.applyNext node driver
  | .applyFails node => (state.driver node).bind fun driver => state.applyFails node driver
  | .timeout node uuid =>
    (state.driver node).bind fun driver =>
      (driver.pending.get uuid).map fun call =>
        (state.setDriver node { driver with pending := driver.pending.erase uuid }).setError call
  | .loseLeadership node => (state.driver node).map fun driver => state.rejectPendingPromises node driver

/-- What a success tells: the entry of this very call stands at the index and
is committed, and for `applied` the node of the call has applied it. -/
def Told (state : State) (outcome : Outcome) : Prop :=
  ∀ index, outcome.result = .ok index → ∃ node position record, index = position + 1 ∧
    state.calls[outcome.call]? = some node ∧ state.shared.committedLog[position]? = some record ∧
    record.call = some outcome.call ∧ (outcome.promise = .applied → index ≤ state.applied node)

structure Truthful (state : State) : Prop where
  once : (state.outcomes.map fun outcome => (outcome.promise, outcome.call)).Nodup
  told : ∀ outcome ∈ state.outcomes, state.Told outcome
  /-- No committed entry still to be handed out has the id of another pending proposal. -/
  matching : ∀ node driver, state.driver node = some driver → ∀ uuid call,
    driver.pending.get uuid = some call → ∀ record ∈ state.shared.committedLog.drop driver.handedOut,
    record.id = some uuid → record.call = some call

/-- No entry that the driver may still hand out has the id. -/
def Unused (state : State) (driver : Driver) (uuid : Nat) : Prop :=
  ∀ branch ∈ state.shared.branches, state.shared.committedLog <+: branch →
    ∀ record ∈ branch.drop driver.handedOut, record.id ≠ some uuid

def OnlyPending (state : State) (uuid call : Nat) : Prop :=
  ∀ entry ∈ state.nodes.entries, ∀ driver ∈ entry.2.driver, ∀ other ∈ driver.pending.get uuid, other = call

def nextPosted (state : State) (node : Nat) : Option (Nat × Nat) :=
  (state.driver node).bind fun driver =>
    driver.posted.head?.filter fun posted => driver.pending.get posted.1 = some posted.2

/-- A proposal is registered under an id that no entry still to be handed out
has, and appended while no other proposal waits for its id. -/
def idsApart (state : State) : Action → Prop
  | .propose node uuid true =>
    ∀ driver ∈ state.driver node, driver.pending.contains uuid = true ∨ state.Unused driver uuid
  | .stepPosted node (.appended true) =>
    ∀ posted ∈ state.nextPosted node, state.OnlyPending posted.1 posted.2
  | .stepPosted node (.forked branch true) =>
    ∀ posted ∈ state.nextPosted node, state.shared.committedLog <+: branch ++ [⟨some posted.1, some posted.2⟩] →
      state.OnlyPending posted.1 posted.2
  | _ => True

instance (state : State) (driver : Driver) (uuid : Nat) : Decidable (state.Unused driver uuid) :=
  inferInstanceAs (Decidable (∀ branch ∈ _, _ → ∀ record ∈ _, _))

instance (state : State) (uuid call : Nat) : Decidable (state.OnlyPending uuid call) :=
  inferInstanceAs (Decidable (∀ entry ∈ state.nodes.entries, ∀ driver ∈ entry.2.driver,
    ∀ other ∈ driver.pending.get uuid, other = call))

instance (state : State) (action : Action) : Decidable (state.idsApart action) := by
  unfold idsApart
  split <;> infer_instance

/-! ## Lookups after a change -/

@[simp] theorem driver_setNode (state : State) (node applied : Nat) (driver : Option Driver) (wanted : Nat) :
    (state.setNode node applied driver).driver wanted = if wanted = node then driver else state.driver wanted := by
  by_cases same : wanted = node <;> simp [State.driver, setNode, same]

@[simp] theorem applied_setNode (state : State) (node applied : Nat) (driver : Option Driver) (wanted : Nat) :
    (state.setNode node applied driver).applied wanted = if wanted = node then applied else state.applied wanted := by
  by_cases same : wanted = node <;> simp [State.applied, setNode, same]

/-- What holds of a running driver: the operations belong to the entries after
the apply index, and a waiting id is that of its own call's entry only. -/
structure DriverOk (shared : SharedLog Nat Record) (calls : List Nat) (node applied : Nat) (driver : Driver) :
    Prop where
  handed : driver.handedOut = applied + driver.operations.length
  within : driver.handedOut ≤ shared.committed
  operations : ∀ (offset call : Nat), driver.operations[offset]? = some (some call) →
    calls[call]? = some node ∧ ∃ record, shared.committedLog[applied + offset]? = some record ∧
      record.call = some call
  owned : ∀ uuid call, driver.pending.get uuid = some call → calls[call]? = some node
  pending : ∀ uuid call, driver.pending.get uuid = some call → ∀ branch, shared.Live branch →
    ∀ position, driver.handedOut ≤ position → ∀ record, branch[position]? = some record →
      record.id = some uuid → record.call = some call

structure Ok (state : State) : Prop where
  applied : ∀ node, state.applied node ≤ state.shared.committed
  drivers : ∀ node driver, state.driver node = some driver →
    DriverOk state.shared state.calls node (state.applied node) driver
  once : (state.outcomes.map fun outcome => (outcome.promise, outcome.call)).Nodup
  told : ∀ outcome ∈ state.outcomes, state.Told outcome

variable {next state : State} {call node uuid : Nat} {driver : Driver} {shared : SharedLog Nat Record}

theorem Ok.truthful (ok : state.Ok) : state.Truthful := by
  refine ⟨ok.once, ok.told, ?_⟩
  intro node driver running uuid call waiting record mem same
  obtain ⟨offset, found⟩ := mem_iff_getElem?.mp mem
  rw [getElem?_drop] at found
  exact (ok.drivers node driver running).pending uuid call waiting _ state.shared.live_log _
    (Nat.le_add_right _ _) record (getElem?_of_initial state.shared.committedLog_initial found) same

theorem Told.mono {outcome : Outcome} (told : state.Told outcome)
    (calls : state.calls <+: next.calls) (committed : state.shared.committedLog <+: next.shared.committedLog)
    (applied : ∀ node, state.applied node ≤ next.applied node) : next.Told outcome := by
  intro index success
  obtain ⟨node, position, record, rfl, owner, found, own, reached⟩ := told index success
  exact ⟨node, position, record, rfl, getElem?_of_initial calls owner,
    getElem?_of_initial committed found, own, fun kind => (reached kind).trans (applied node)⟩

theorem Ok.set (ok : state.Ok) {promise : Promise} {result : Result}
    (told : state.Told ⟨promise, call, result⟩) : (state.set promise call result).Ok := by
  unfold State.set
  split
  · exact ok
  next absent =>
    refine ⟨ok.applied, ok.drivers, ?_, ?_⟩
    · rw [map_append]
      refine pairwise_snoc.mpr ⟨ok.once, fun key mem last => ?_⟩
      rw [last] at mem
      obtain ⟨outcome, known, same⟩ := List.mem_map.mp mem
      obtain ⟨rfl, rfl⟩ := Prod.mk.inj same
      exact absent (any_eq_true.mpr ⟨outcome, known, by simp⟩)
    · exact forall_mem_snoc ok.told told

theorem Ok.setError (ok : state.Ok) (call : Nat) : (state.setError call).Ok := by
  have nothing : ∀ (state : State) promise, state.Told ⟨promise, call, .error⟩ := by
    intro state promise index success
    cases success
  exact (ok.set (nothing _ _)).set (nothing _ _)

theorem Ok.setNode (ok : state.Ok) {applied : Nat} {driver : Option Driver}
    (grows : state.applied node ≤ applied) (within : applied ≤ state.shared.committed)
    (running : ∀ running, driver = some running → DriverOk state.shared state.calls node applied running) :
    (state.setNode node applied driver).Ok := by
  refine ⟨?_, ?_, ok.once, fun outcome mem =>
    (ok.told outcome mem).mono (prefix_refl _) (prefix_refl _) ?_⟩
  · intro other
    rw [applied_setNode]
    split
    · exact within
    · exact ok.applied other
  · intro other found
    rw [driver_setNode, applied_setNode]
    split
    next same =>
      subst same
      exact running found
    · exact ok.drivers other found
  · intro other
    rw [applied_setNode]
    split
    next same =>
      exact same ▸ grows
    · exact le_rfl

theorem Ok.setDriver (ok : state.Ok)
    (running : DriverOk state.shared state.calls node (state.applied node) driver) :
    (state.setDriver node driver).Ok :=
  ok.setNode (le_rfl) (ok.applied node) fun _ same => some.inj same ▸ running

theorem Ok.setCall (ok : state.Ok) (node : Nat) : Ok { state with calls := state.calls ++ [node] } := by
  have longer : state.calls <+: state.calls ++ [node] := prefix_append _ _
  refine ⟨ok.applied, ?_, ok.once, fun outcome mem =>
    (ok.told outcome mem).mono longer (prefix_refl _) fun _ => le_rfl⟩
  intro other driver running
  have holds := ok.drivers other driver running
  refine ⟨holds.handed, holds.within, fun offset call found => ?_, fun uuid call waiting =>
    getElem?_of_initial longer (holds.owned uuid call waiting), holds.pending⟩
  obtain ⟨owner, entry⟩ := holds.operations offset call found
  exact ⟨getElem?_of_initial longer owner, entry⟩

theorem length_committedLog (shared : SharedLog Nat Record) : shared.committedLog.length = shared.committed := by
  rw [committedLog, length_take, min_eq_left shared.bounded]

def Waits (state : State) (uuid call : Nat) : Prop :=
  ∃ node driver, state.driver node = some driver ∧ driver.pending.get uuid = some call

/-- A change of the log keeps the invariant when no driver waits for the id of
the added entry with another call. -/
theorem Ok.advance (ok : state.Ok) {added : Option Record}
    (advances : state.shared.Advances shared added)
    (apart : ∀ record, added = some record → ∀ uuid call, state.Waits uuid call →
      record.id = some uuid → record.call = some call) :
    Ok { state with shared } := by
  have grows : state.shared.committed ≤ shared.committed := by
    rw [← length_committedLog, ← length_committedLog]
    exact advances.committed.length_le
  refine ⟨fun node => (ok.applied node).trans grows, ?_, ok.once, fun outcome mem =>
    (ok.told outcome mem).mono (prefix_refl _) advances.committed fun _ => le_rfl⟩
  intro node driver running
  have holds := ok.drivers node driver running
  refine ⟨holds.handed, holds.within.trans grows, fun offset call found => ?_, holds.owned, ?_⟩
  · obtain ⟨owner, record, entry, own⟩ := holds.operations offset call found
    exact ⟨owner, record, getElem?_of_initial advances.committed entry, own⟩
  · intro uuid call waiting branch live position later record found same
    rcases advances.live branch live position record found with fresh | ⟨earlier, live, found⟩
    · exact apart record fresh uuid call ⟨node, driver, running, waiting⟩ same
    · exact holds.pending uuid call waiting earlier live position later record found same

theorem DriverOk.fewer {calls : List Nat} {applied : Nat} {next : Driver}
    (holds : DriverOk shared calls node applied driver) (handed : next.handedOut = driver.handedOut)
    (operations : next.operations = driver.operations)
    (pending : ∀ uuid call, next.pending.get uuid = some call → driver.pending.get uuid = some call) :
    DriverOk shared calls node applied next := by
  refine ⟨?_, handed ▸ holds.within, operations ▸ holds.operations, ?_, ?_⟩
  · rw [handed, operations]
    exact holds.handed
  · exact fun uuid call waiting => holds.owned uuid call (pending uuid call waiting)
  · rw [handed]
    exact fun uuid call waiting => holds.pending uuid call (pending uuid call waiting)

theorem Ok.rejectPendingPromises (ok : state.Ok)
    (holds : DriverOk state.shared state.calls node (state.applied node) driver) :
    (state.rejectPendingPromises node driver).Ok := by
  have cleared : (state.setDriver node { driver with pending := .empty }).Ok := by
    refine ok.setDriver (holds.fewer rfl rfl fun uuid call waiting => ?_)
    cases waiting
  exact foldlRecOn _ _ cleared fun _ ok call _ => ok.setError call

theorem DriverOk.register
    (called : DriverOk state.shared (state.calls ++ [node]) node (state.applied node) driver)
    (unused : state.Unused driver uuid) (posted : List (Nat × Nat)) (drawn : List Nat) :
    DriverOk state.shared (state.calls ++ [node]) node (state.applied node)
      { driver with pending := driver.pending.put uuid state.calls.length, posted, drawn } := by
  refine ⟨called.handed, called.within, called.operations, Table.forall_get_put (by simp) called.owned, ?_⟩
  refine Table.forall_get_put (fun branch live position later record found same => ?_) called.pending
  have offset : branch[driver.handedOut + (position - driver.handedOut)]? = some record := by
    rw [Nat.add_sub_cancel' later, found]
  rw [← getElem?_drop] at offset
  exact absurd same (unused branch live.1 live.2 record (mem_of_getElem? offset))

theorem Ok.propose (ok : state.Ok) {accepted : Bool} (running : state.driver node = some driver)
    (apart : state.idsApart (.propose node uuid accepted))
    (done : state.propose node uuid driver accepted = some next) : next.Ok := by
  have called := (ok.setCall node).drivers node driver running
  unfold State.propose at done
  cases accepted with
  | false =>
    cases done
    refine ((ok.setCall node).setDriver ?_).setError _
    exact called.fewer rfl rfl fun _ _ waiting => waiting
  | true =>
    simp only [if_true] at done
    split at done
    · cases done
    cases done
    refine (ok.setCall node).setDriver ?_
    split
    · exact called.fewer rfl rfl fun _ _ waiting => waiting
    next absent =>
      exact called.register ((apart driver running).resolve_left absent) _ _

theorem OnlyPending.apart (only : state.OnlyPending uuid call) {other : Nat}
    (waiting : state.Waits uuid other) : other = call := by
  obtain ⟨node, driver, running, waiting⟩ := waiting
  obtain ⟨found, known, holds⟩ := bind_eq_some_iff.mp running
  exact only (node, found) ((state.nodes.get_eq_some_iff).mp known) driver holds other waiting

theorem waits_of_posted {posted : List (Nat × Nat)} (running : state.driver node = some driver)
    (waiting : (state.setDriver node { driver with posted }).Waits uuid call) : state.Waits uuid call := by
  obtain ⟨other, found, known, waiting⟩ := waiting
  rw [State.setDriver, driver_setNode] at known
  split at known
  · cases known
    exact ⟨node, driver, running, waiting⟩
  · exact ⟨other, found, known, waiting⟩

theorem proposed_apart {kept : Bool} (alone : kept = true → state.OnlyPending uuid call)
    {wanted waiting : Nat} (waits : state.Waits wanted waiting)
    (same : (Record.proposed uuid call kept).id = some wanted) :
    (Record.proposed uuid call kept).call = some waiting := by
  cases kept with
  | false => cases same
  | true =>
    cases same
    exact congrArg some ((alone rfl).apart waits).symm

theorem Ok.stepPosted (ok : state.Ok) {stepped : Stepped}
    (running : state.driver node = some driver) (apart : state.idsApart (.stepPosted node stepped))
    (done : state.stepPosted node driver stepped = some next) : next.Ok := by
  have holds := ok.drivers node driver running
  unfold State.stepPosted at done
  split at done
  · cases done
  rename_i uuid call posted first
  have left : (state.setDriver node { driver with posted }).Ok :=
    ok.setDriver (holds.fewer rfl rfl fun _ _ waiting => waiting)
  split at done
  · cases done
    exact left
  next waits =>
    have known : (uuid, call) ∈ state.nextPosted node := by
      simp [nextPosted, running, first, not_not.mp waits]
    cases stepped with
    | refused =>
      cases done
      refine (ok.setDriver ?_).setError call
      exact holds.fewer rfl rfl fun _ _ found => (Table.get_erase_eq_some.mp found).2
    | appended kept =>
      simp only at done
      split at done
      · cases done
        refine left.advance (state.shared.append_advances _) ?_
        rintro record added wanted waiting waits same
        cases added
        refine proposed_apart (fun keeps => ?_) (waits_of_posted running waits) same
        subst keeps
        exact apart _ known
      · cases done
    | forked branch kept =>
      simp only at done
      split at done
      · obtain ⟨shared, forked, rfl⟩ := map_eq_some_iff.mp done
        refine left.advance (fork_advances forked) ?_
        rintro record added wanted waiting waits same
        split at added
        next live =>
          obtain rfl := some.inj added
          refine proposed_apart (fun keeps => ?_) (waits_of_posted running waits) same
          subst keeps
          exact apart _ known live
        · cases added
      · cases done

theorem Ok.handOut (ok : state.Ok) (running : state.driver node = some driver)
    (done : state.handOut node driver = some next) : next.Ok := by
  have holds := ok.drivers node driver running
  obtain ⟨record, found, rfl⟩ := map_eq_some_iff.mp done
  obtain ⟨inside, inLog⟩ := getElem?_committedLog.mp found
  -- The context that is taken belongs to the entry handed out.
  have own : ∀ call, record.id.bind driver.pending.get = some call →
      state.calls[call]? = some node ∧ record.call = some call := by
    intro call taken
    obtain ⟨uuid, same, waiting⟩ := bind_eq_some_iff.mp taken
    exact ⟨holds.owned uuid call waiting,
      holds.pending uuid call waiting _ state.shared.live_log _ (le_rfl) record inLog same⟩
  have advanced : DriverOk state.shared state.calls node (state.applied node) { driver with
      pending := match record.id, record.id.bind driver.pending.get with
        | some uuid, some _ => driver.pending.erase uuid
        | _, _ => driver.pending
      handedOut := driver.handedOut + 1
      operations := driver.operations ++ [record.id.bind driver.pending.get] } := by
    have fewer : ∀ {uuid call}, (match record.id, record.id.bind driver.pending.get with
        | some uuid, some _ => driver.pending.erase uuid
        | _, _ => driver.pending).get uuid = some call → driver.pending.get uuid = some call := by
      intro uuid call waiting
      split at waiting
      · exact (Table.get_erase_eq_some.mp waiting).2
      · exact waiting
    refine ⟨?_, inside, ?_, fun uuid call waiting => holds.owned uuid call (fewer waiting), ?_⟩
    · rw [length_append, length_singleton, holds.handed, add_assoc]
    · intro offset call taken
      rcases getElem?_snoc.mp taken with before | ⟨rfl, last⟩
      · exact holds.operations offset call before
      · obtain ⟨owner, same⟩ := own call last.symm
        exact ⟨owner, record, holds.handed ▸ found, same⟩
    · intro uuid call waiting branch live position later
      exact holds.pending uuid call (fewer waiting) branch live position (Nat.le_of_succ_le later)
  have moved := ok.setDriver advanced
  simp only
  split
  next call taken =>
    refine moved.set fun index success => ?_
    cases success
    obtain ⟨owner, same⟩ := own call taken
    exact ⟨node, driver.handedOut, record, rfl, owner, found, same, nofun⟩
  · exact moved

theorem Ok.applyNext (ok : state.Ok) (running : state.driver node = some driver)
    (done : state.applyNext node driver = some next) : next.Ok := by
  have holds := ok.drivers node driver running
  unfold State.applyNext at done
  split at done
  · cases done
  rename_i context operations first
  have handed : driver.handedOut = state.applied node + 1 + operations.length := by
    rw [holds.handed, first, length_cons]
    omega
  have advanced : DriverOk state.shared state.calls node (state.applied node + 1) { driver with operations } := by
    refine ⟨handed, holds.within, fun offset call taken => ?_, holds.owned, holds.pending⟩
    have later := holds.operations (offset + 1) call (by rw [first]; exact taken)
    rwa [add_assoc, add_comm 1]
  have moved := ok.setNode (Nat.le_succ _) ((handed ▸ Nat.le_add_right _ _).trans holds.within)
    (fun _ same => some.inj same ▸ advanced)
  cases done
  split
  next call =>
    refine moved.set fun index success => ?_
    cases success
    obtain ⟨owner, record, found, same⟩ := holds.operations 0 call (by rw [first]; rfl)
    refine ⟨node, state.applied node, record, rfl, owner, found, same, fun _ => ?_⟩
    rw [applied_setNode, if_pos rfl]
  · exact moved

theorem Ok.applyFails (ok : state.Ok) (done : state.applyFails node driver = some next) : next.Ok := by
  have gone : (state.setNode node (state.applied node) none).Ok := ok.setNode (le_rfl) (ok.applied node) nofun
  unfold State.applyFails at done
  split at done
  · cases done
  cases done
  split
  · exact gone.set fun index success => by cases success
  · exact gone

theorem Ok.step {action : Action} (ok : state.Ok) (apart : state.idsApart action)
    (taken : state.step action = some next) : next.Ok := by
  cases action with
  | elect node branch =>
    obtain ⟨shared, elected, rfl⟩ := map_eq_some_iff.mp taken
    refine (ok.advance (elect_advances elected) nofun).advance (shared.append_advances _) ?_
    rintro record added uuid call - same
    cases added
    cases same
  | commit upto =>
    obtain ⟨shared, done, rfl⟩ := map_eq_some_iff.mp taken
    exact ok.advance (commit_advances done) nofun
  | start node time =>
    simp only [State.step] at taken
    split at taken
    · cases taken
    cases taken
    refine ok.setNode (le_rfl) (ok.applied node) fun _ same => ?_
    cases same
    exact ⟨rfl, ok.applied node, nofun, nofun, nofun⟩
  | crash node =>
    cases taken
    exact ok.setNode (le_rfl) (ok.applied node) nofun
  | stop node =>
    obtain ⟨driver, running, rfl⟩ := map_eq_some_iff.mp taken
    exact ok.rejectPendingPromises ((ok.drivers node driver running).fewer rfl rfl fun _ _ waiting => waiting)
  | draw node =>
    obtain ⟨driver, running, rfl⟩ := map_eq_some_iff.mp taken
    exact ok.setDriver ((ok.drivers node driver running).fewer rfl rfl fun _ _ waiting => waiting)
  | propose node uuid accepted =>
    obtain ⟨driver, running, taken⟩ := bind_eq_some_iff.mp taken
    split at taken
    · exact ok.propose running apart taken
    · cases taken
  | stepPosted node stepped =>
    obtain ⟨driver, running, taken⟩ := bind_eq_some_iff.mp taken
    exact ok.stepPosted running apart taken
  | handOut node =>
    obtain ⟨driver, running, taken⟩ := bind_eq_some_iff.mp taken
    exact ok.handOut running taken
  | applyNext node =>
    obtain ⟨driver, running, taken⟩ := bind_eq_some_iff.mp taken
    exact ok.applyNext running taken
  | applyFails node =>
    obtain ⟨driver, running, taken⟩ := bind_eq_some_iff.mp taken
    exact ok.applyFails taken
  | timeout node uuid =>
    obtain ⟨driver, running, taken⟩ := bind_eq_some_iff.mp taken
    obtain ⟨call, waiting, rfl⟩ := map_eq_some_iff.mp taken
    refine (ok.setDriver ?_).setError call
    exact (ok.drivers node driver running).fewer rfl rfl fun _ _ found => (Table.get_erase_eq_some.mp found).2
  | loseLeadership node =>
    obtain ⟨driver, running, rfl⟩ := map_eq_some_iff.mp taken
    exact ok.rejectPendingPromises (ok.drivers node driver running)

theorem Ok.init (peers : Nat) : (State.init peers).Ok :=
  ⟨fun _ => Nat.zero_le _, nofun, nodup_nil, nofun⟩

/-- In every run whose request ids stay apart every promise gets at most one
value, and a success is that of the entry of the call itself. -/
theorem truthful_of_idsApart {peers : Nat} {actions : List Action} {state : State}
    (run : Runs step idsApart (State.init peers) actions state) : state.Truthful :=
  (run.invariant Ok (.init peers) fun _ _ _ => Ok.step).truthful

/-- A proposal that is appended, committed and applied on its node. -/
theorem truthful_applied : ∃ actions state, Runs step idsApart (State.init 1) actions state ∧
    state.outcomes = [⟨.commited, 0, .ok 3⟩, ⟨.applied, 0, .ok 3⟩] ∧ state.Truthful := by
  have told : (execute step idsApart (State.init 1) [.start 1 500, .handOut 1, .applyNext 1,
      .elect 1 [.bootstrap], .draw 1, .propose 1 281474976838657 true, .stepPosted 1 (.appended true), .commit 3,
      .handOut 1, .handOut 1, .applyNext 1, .applyNext 1]).map State.outcomes =
        some [⟨.commited, 0, .ok 3⟩, ⟨.applied, 0, .ok 3⟩] := by decide
  obtain ⟨state, executed, told⟩ := map_eq_some_iff.mp told
  have run := runs_of_execute executed
  exact ⟨_, state, run, told, truthful_of_idsApart run⟩

/-- A node restarts when its clock shows the time of its last start, and the
entry of the earlier process tells the new call that it was applied. -/
theorem not_truthful_sameClock : ∃ actions state, Runs step anyAction (State.init 1) actions state ∧
    (⟨.applied, 1, .ok 3⟩ : Outcome) ∈ state.outcomes ∧
    state.shared.committedLog[2]? = some ⟨some 281474976838657, some 0⟩ ∧ ¬ state.Truthful := by
  have told : (execute step anyAction (State.init 1) [.start 1 500, .handOut 1, .applyNext 1,
      .elect 1 [.bootstrap], .draw 1, .propose 1 281474976838657 true, .stepPosted 1 (.appended true), .crash 1,
      .start 1 500, .elect 1 [.bootstrap, .empty, ⟨some 281474976838657, some 0⟩], .draw 1,
      .propose 1 281474976838657 true, .commit 4, .handOut 1, .handOut 1, .applyNext 1, .applyNext 1]).map
        (fun state => (state.outcomes, state.shared.committedLog)) =
      some ([⟨.commited, 1, .ok 3⟩, ⟨.applied, 1, .ok 3⟩],
        [.bootstrap, .empty, ⟨some 281474976838657, some 0⟩, .empty]) := by decide
  obtain ⟨state, executed, told⟩ := map_eq_some_iff.mp told
  obtain ⟨outcomes, committed⟩ := Prod.mk.inj told
  have mem : (⟨.applied, 1, .ok 3⟩ : Outcome) ∈ state.outcomes := by
    rw [outcomes]
    decide
  refine ⟨_, state, runs_of_execute executed, mem, by rw [committed]; rfl, fun truthful => ?_⟩
  obtain ⟨node, position, record, index, -, found, own, -⟩ := truthful.told _ mem 3 rfl
  obtain rfl : 2 = position := Nat.succ.inj index
  rw [committed] at found
  cases found
  cases own

end State

end RocksGraph.Proposals
