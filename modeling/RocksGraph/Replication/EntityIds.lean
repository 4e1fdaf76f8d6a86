import RocksGraph.Replication.IdGenerator

/-! Freshness of entity ids across replicas and leaders.

The range records of a log reserve consecutive ranges as long as every record
is appended by a leader that has applied the ones before it. A reserved id is
then held by at most one party at a time: by the call that reserved it, by the
counters of that call's node, or by the caller it was handed to. -/

set_option autoImplicit false

namespace RocksGraph.IdGenerator

open RocksGraph.Foundation List Option State SharedLog Memory EntityPc

def rangeOf (kind : EntityKind) (proposal : Proposal) : Option Nat :=
  match proposal.record with
  | .nextEntityId other next => if other = kind then some next else none
  | .token _ _ _ | .other => none

def lastRange (kind : EntityKind) (log : List Proposal) : Option Nat :=
  (log.filterMap (rangeOf kind)).getLast?

def lastEnd (kind : EntityKind) (log : List Proposal) : Nat :=
  (lastRange kind log).getD 1

/-- A proposal that may follow a log: its range, if it has one, lies behind the last one. -/
def Allowed (before : List Proposal) (proposal : Proposal) : Prop :=
  ∀ kind next, rangeOf kind proposal = some next → lastEnd kind before + kIdRangeSize ≤ next

theorem lastRange_snoc (kind : EntityKind) (log : List Proposal) (proposal : Proposal) :
    lastRange kind (log ++ [proposal]) = (rangeOf kind proposal).or (lastRange kind log) := by
  cases found : rangeOf kind proposal <;> simp [lastRange, found]

variable {kind : EntityKind} {proposal : Proposal} {next state : State} {log : List Proposal}
  {id start thread uuid : Nat} {used : List Nat} {shared : SharedLog Nat Proposal} {node : Node} {call : EntityCall}
  {pc : EntityPc}

theorem lastEnd_snoc_range {next : Nat} (found : rangeOf kind proposal = some next)
    (log : List Proposal) : lastEnd kind (log ++ [proposal]) = next := by
  simp [lastEnd, lastRange_snoc, found]

theorem lastEnd_snoc_other (other : rangeOf kind proposal = none) (log : List Proposal) :
    lastEnd kind (log ++ [proposal]) = lastEnd kind log := by
  simp [lastEnd, lastRange_snoc, other]

theorem rangeOf_nextEntityId (uuid : Nat) (kind other : EntityKind) (next : Nat) :
    rangeOf kind ⟨uuid, .nextEntityId other next⟩ = if other = kind then some next else none := rfl

open SharedLog (Grown AllGrown)

theorem Grown.range_le_lastEnd (grown : Grown Allowed log) {next : Nat} (mem : proposal ∈ log)
    (found : rangeOf kind proposal = some next) : next ≤ lastEnd kind log := by
  induction log using reverseRecOn with
  | nil => cases mem
  | append_singleton log last ih =>
    have before := grown.of_initial (prefix_append log [last])
    rcases mem_append.mp mem with mem | mem
    · cases range : rangeOf kind last with
      | none =>
        rw [lastEnd_snoc_other range]
        exact ih before mem
      | some top =>
        rw [lastEnd_snoc_range range]
        have fits := grown log [] last rfl kind top range
        exact le_trans (ih before mem) (Nat.le_of_add_right_le fits)
    · rw [mem_singleton] at mem
      subst mem
      rw [lastEnd_snoc_range found]

def InRange (next id : Nat) : Prop := next ≤ id + kIdRangeSize ∧ id < next

def Covered (log : List Proposal) (kind : EntityKind) (id : Nat) : Prop :=
  ∃ proposal ∈ log, ∃ next, rangeOf kind proposal = some next ∧ InRange next id

theorem Grown.proposal_unique (grown : Grown Allowed log) {first second : Proposal}
    {firstEnd secondEnd : Nat} (left : first ∈ log) (right : second ∈ log)
    (foundFirst : rangeOf kind first = some firstEnd)
    (foundSecond : rangeOf kind second = some secondEnd) (inFirst : InRange firstEnd id)
    (inSecond : InRange secondEnd id) : first = second := by
  -- the later of two records reserves behind all records before it
  have separate : ∀ {before after : List Proposal} {early late : Proposal} {earlyEnd lateEnd : Nat},
      log = before ++ late :: after → early ∈ before → rangeOf kind early = some earlyEnd →
      rangeOf kind late = some lateEnd → InRange earlyEnd id → InRange lateEnd id → False := by
    intro before after early late earlyEnd lateEnd same mem foundEarly foundLate inEarly inLate
    have fits := grown before after late same kind lateEnd foundLate
    have top := Grown.range_le_lastEnd (grown.of_initial ⟨late :: after, same.symm⟩) mem foundEarly
    have := inEarly.2
    have := inLate.1
    omega
  obtain ⟨before, after, same⟩ := append_of_mem left
  rw [same] at right
  rcases mem_append.mp right with right | right
  · exact (separate same right foundSecond foundFirst inSecond inFirst).elim
  rcases mem_cons.mp right with rfl | right
  · rfl
  obtain ⟨between, rest, rfl⟩ := append_of_mem right
  have split : log = (before ++ first :: between) ++ second :: rest := by simp [same]
  exact (separate split (by simp) foundFirst foundSecond inFirst inSecond).elim

def stageOf (kind : EntityKind) (syncing : Option Syncing) : Option SyncStage :=
  syncing.bind fun sync => (rangeOf kind sync.proposal).map fun _ => sync.stage

/-- Counters against the last range end in the store. While a record is being
applied they catch up one by one. -/
structure CountersOk (top : Nat) (stage : Option SyncStage) (counters : Counters) : Prop where
  next_le : counters.next ≤ top
  rangeEnd_le : counters.rangeEnd ≤ top
  persisted_le : counters.persisted ≤ top
  persisted_eq : stage ≠ some .persisted → counters.persisted = top
  next_eq : stage = some .rangeEnd ∨ stage = some .done → counters.next = top
  rangeEnd_eq : stage = some .done → counters.rangeEnd = top

/-- A node that has written the batches of `seen` to its store. -/
structure NodeOk (seen : List Proposal) (node : Node) : Prop where
  stored : ∀ kind, node.metaInfo.nextEntityId kind = lastRange kind seen
  syncing : ∀ sync, node.syncing = some sync → ∃ before, seen = before ++ [sync.proposal]
  resolved : ∀ uuid ∈ node.resolved, ∃ proposal ∈ seen, proposal.uuid = uuid
  counters : node.running → ∀ kind,
    CountersOk (lastEnd kind seen) (stageOf kind node.syncing) (node.memory.counters kind)

def EntityPc.request : EntityPc → Option (Nat × Nat)
  | .waiting start uuid | .storePersisted start uuid | .storeNext start uuid
  | .storeLimit start uuid => some (start, uuid)
  | _ => none

def EntityPc.granted (resolved : List Nat) : EntityPc → Prop
  | .waiting _ uuid => uuid ∈ resolved
  | .storePersisted _ _ | .storeNext _ _ | .storeLimit _ _ => True
  | _ => False

def EntityPc.published : EntityPc → Prop
  | .storeLimit _ _ => True
  | _ => False

/-- What a call with a granted range finds: its proposal, and the range right behind the counters. -/
structure GrantOk (shared : SharedLog Nat Proposal) (counters : Counters) (published : Prop) (start uuid : Nat) :
    Prop where
  committed : ∃ proposal ∈ shared.committedLog, proposal.uuid = uuid
  persisted : counters.persisted = start + kIdRangeSize
  rangeEnd : counters.rangeEnd = start + kIdRangeSize
  next : ¬ published → counters.next = start + kIdRangeSize

structure CallOk (shared : SharedLog Nat Proposal) (used : List Nat) (node : Node)
    (call : EntityCall) : Prop where
  running : node.running
  limit : ∀ candidate limit, call.pc = .take candidate limit →
    limit ≤ (node.memory.counters call.kind).rangeEnd
  fresh : ∀ start uuid, call.pc.request = some (start, uuid) → uuid ∈ used
  requested : ∀ start uuid, call.pc.request = some (start, uuid) →
    ∀ log ∈ shared.branches, ∀ proposal ∈ log, proposal.uuid = uuid →
      proposal.record = .nextEntityId call.kind (start + kIdRangeSize)
  stage : call.pc.granted node.resolved → stageOf call.kind node.syncing = none
  granted : ∀ start uuid, call.pc.request = some (start, uuid) → call.pc.granted node.resolved →
    GrantOk shared (node.memory.counters call.kind) call.pc.published start uuid

structure RangeInv (state : State) : Prop where
  grown : state.shared.AllGrown Allowed
  uuids : ∀ log ∈ state.shared.branches, ∀ proposal ∈ log, proposal.uuid ∈ state.used
  applied : ∀ id, (state.nodes id).applied ≤ state.shared.committed
  node : ∀ id, NodeOk (state.shared.log.take (state.nodes id).applied) (state.nodes id)
  call : ∀ thread call, state.entityCalls.get thread = some call →
    CallOk state.shared state.used (state.nodes call.node) call
  sole : ∀ first second left right start other uuid,
    state.entityCalls.get first = some left → state.entityCalls.get second = some right →
    left.pc.request = some (start, uuid) → right.pc.request = some (other, uuid) → first = second

def State.CaughtUp (state : State) (log : List Proposal) (id : Nat) (kind : EntityKind) : Prop :=
  (∀ proposal ∈ log.drop (state.nodes id).applied, rangeOf kind proposal = none) ∧
  stageOf kind (state.nodes id).syncing = none

def State.UpToDate (state : State) (log : List Proposal) (call : EntityCall) : Prop :=
  call.pc.proposes → state.CaughtUp log call.node call.kind ∧
    call.pc = .propose ((state.nodes call.node).memory.counters call.kind).persisted

/-- A range is proposed only by a node that has applied every range record of
its log, while the counter it read still stands; and no range record is applied
to a node while a call on it is storing the range it was granted. -/
def rangeOrder (state : State) : Action → Prop
  | .stepEntity thread => ∀ entry ∈ state.entityCalls.entries, entry.1 = thread →
      state.UpToDate state.shared.log entry.2
  | .strayEntity thread onto => ∀ entry ∈ state.entityCalls.entries, entry.1 = thread →
      ∀ log ∈ onto, state.UpToDate log entry.2
  | .apply id => ∀ proposal ∈ state.shared.log[(state.nodes id).applied]?.toList,
      ∀ entry ∈ state.entityCalls.entries, entry.2.node = id →
      rangeOf entry.2.kind proposal ≠ none → ¬ entry.2.pc.granted (state.nodes id).resolved
  | _ => True

instance (resolved : List Nat) (pc : EntityPc) : Decidable (pc.granted resolved) := by
  unfold granted
  split <;> infer_instance

instance (state : State) (log : List Proposal) (id : Nat) (kind : EntityKind) :
    Decidable (state.CaughtUp log id kind) :=
  inferInstanceAs (Decidable (_ ∧ _))

instance (state : State) (log : List Proposal) (call : EntityCall) : Decidable (state.UpToDate log call) :=
  inferInstanceAs (Decidable (_ → _))

instance (state : State) (action : Action) : Decidable (rangeOrder state action) := by
  unfold rangeOrder
  split <;> infer_instance

def rangeGuard (state : State) (action : Action) : Prop :=
  state.newId action ∧ rangeOrder state action

instance (state : State) (action : Action) : Decidable (rangeGuard state action) :=
  inferInstanceAs (Decidable (_ ∧ _))

section

variable (ok : CallOk shared used node call)
include ok

theorem CallOk.moved {moved : Node} (running : moved.running)
    (limit : ∀ candidate limit, call.pc = .take candidate limit → limit ≤ (moved.memory.counters call.kind).rangeEnd)
    (resolved : moved.resolved = node.resolved)
    (granted : call.pc.granted node.resolved → stageOf call.kind moved.syncing = none ∧
      (moved.memory.counters call.kind).persisted = (node.memory.counters call.kind).persisted ∧
      (moved.memory.counters call.kind).rangeEnd = (node.memory.counters call.kind).rangeEnd ∧
      (¬ call.pc.published → (moved.memory.counters call.kind).next = (node.memory.counters call.kind).next)) :
    CallOk shared used moved call := by
  refine ⟨running, limit, ok.fresh, ok.requested, ?_, ?_⟩ <;> rw [resolved]
  · exact fun isGranted => (granted isGranted).1
  · intro start uuid request isGranted
    obtain ⟨committed, persisted, rangeEnd, next⟩ := ok.granted start uuid request isGranted
    obtain ⟨-, samePersisted, sameEnd, sameNext⟩ := granted isGranted
    exact ⟨committed, samePersisted.trans persisted, sameEnd.trans rangeEnd,
      fun holds => (sameNext holds).trans (next holds)⟩

theorem CallOk.congr {moved : Node} (running : moved.running)
    (counters : moved.memory.counters call.kind = node.memory.counters call.kind)
    (resolved : moved.resolved = node.resolved)
    (stage : call.pc.granted node.resolved → stageOf call.kind moved.syncing = none) :
    CallOk shared used moved call :=
  ok.moved running (by rw [counters]; exact ok.limit) resolved fun granted =>
    ⟨stage granted, by rw [counters], by rw [counters], fun _ => by rw [counters]⟩

theorem CallOk.follows {next : SharedLog Nat Proposal} (follows : shared.Follows next) :
    CallOk next used node call :=
  { ok with
    requested := fun start uuid request => follows.forall_mem (ok.requested start uuid request)
    granted := fun start uuid request granted => by
      have grant := ok.granted start uuid request granted
      obtain ⟨proposal, mem, same⟩ := grant.committed
      exact { grant with committed := ⟨proposal, follows.mem_committedLog mem, same⟩ } }

end

theorem RangeInv.follows (inv : RangeInv state) (follows : state.shared.Follows shared) :
    RangeInv { state with shared := shared } where
  grown := inv.grown.follows follows
  uuids := follows.forall_mem inv.uuids
  applied id := le_trans (inv.applied id) follows.committed_le
  node id := by
    rw [follows.take_eq _ (inv.applied id)]
    exact inv.node id
  call thread call found := (inv.call thread call found).follows follows
  sole := inv.sole

variable {changed : Option EntityCall} {onto : Option (List Proposal)} {record : MetaRecord}

theorem CallOk.posted {next : SharedLog Nat Proposal} {new : Nat} (ok : CallOk shared used node call)
    (landed : shared.Posted next onto ⟨new, record⟩) (unused : new ∉ used) :
    CallOk next (new :: used) node call :=
  { ok with
    fresh := fun start uuid request => mem_cons_of_mem _ (ok.fresh start uuid request)
    requested := fun start uuid request => landed.forall_mem (ok.requested start uuid request)
      fun same : new = uuid => absurd (same ▸ ok.fresh start uuid request) unused
    granted := fun start uuid request granted => by
      have grant := ok.granted start uuid request granted
      exact { grant with committed := landed.committedLog ▸ grant.committed } }

section

variable (inv : RangeInv state)
include inv

theorem RangeInv.posted (landed : state.shared.Posted shared onto ⟨state.nextUuid, record⟩)
    (unused : state.nextUuid ∉ state.used)
    (fits : ∀ log ∈ onto, Allowed log ⟨state.nextUuid, record⟩) : RangeInv (state.posted shared) where
  grown := AllGrown.posted landed inv.grown fits
  uuids := landed.forall_mem (fun log mem proposal found =>
    mem_cons_of_mem _ (inv.uuids log mem proposal found)) mem_cons_self
  applied id := le_trans (inv.applied id) (le_of_eq landed.committed.symm)
  node id := by
    change NodeOk (shared.log.take (state.nodes id).applied) (state.nodes id)
    rw [landed.take_eq _ (inv.applied id)]
    exact inv.node id
  call thread call found := (inv.call thread call found).posted landed unused
  sole := inv.sole

theorem RangeInv.setEntityCall
    (ok : ∀ call ∈ changed, CallOk state.shared state.used (state.nodes call.node) call)
    (alone : ∀ call ∈ changed, ∀ start uuid, call.pc.request = some (start, uuid) → ∀ other, other ≠ thread →
      ∀ another, state.entityCalls.get other = some another → ∀ begins,
      another.pc.request ≠ some (begins, uuid)) :
    RangeInv (state.setEntityCall thread changed) where
  grown := inv.grown
  uuids := inv.uuids
  applied := inv.applied
  node := inv.node
  call other call found := by
    rw [setEntityCall_entityCalls] at found
    split at found
    · exact ok call found
    · exact inv.call other call found
  sole first second left right start other uuid foundLeft foundRight requestLeft requestRight := by
    rw [setEntityCall_entityCalls] at foundLeft foundRight
    split at foundLeft
    next isFirst =>
      split at foundRight
      next isSecond =>
        rw [isFirst, isSecond]
      next notSecond =>
        exact (alone left foundLeft start uuid requestLeft second notSecond right foundRight other requestRight).elim
    next notFirst =>
      split at foundRight
      · exact (alone right foundRight other uuid requestRight first notFirst left foundLeft start requestLeft).elim
      · exact inv.sole first second left right start other uuid foundLeft foundRight requestLeft
          requestRight

theorem RangeInv.setCall (ok : CallOk state.shared state.used (state.nodes call.node) call)
    (alone : ∀ start uuid, call.pc.request = some (start, uuid) → ∀ other, other ≠ thread →
      ∀ another, state.entityCalls.get other = some another → ∀ begins,
      another.pc.request ≠ some (begins, uuid)) :
    RangeInv (state.setEntityCall thread (some call)) :=
  inv.setEntityCall (by rintro _ ⟨⟩; exact ok) (by rintro _ ⟨⟩; exact alone)

theorem RangeInv.setNode
    (within : node.applied ≤ state.shared.committed)
    (ok : NodeOk (state.shared.log.take node.applied) node)
    (calls : ∀ thread call, state.entityCalls.get thread = some call → call.node = id →
      CallOk state.shared state.used node call) :
    RangeInv (state.setNode id node) where
  grown := inv.grown
  uuids := inv.uuids
  applied other := by
    rw [setNode_nodes]
    split
    · exact within
    · exact inv.applied other
  node other := by
    rw [setNode_nodes]
    split
    · exact ok
    · exact inv.node other
  call thread call found := by
    rw [setNode_nodes]
    split
    next here =>
      exact calls thread call found here
    · exact inv.call thread call found
  sole := inv.sole

theorem RangeInv.frame (frame : RangeFrame state next) : RangeInv next := by
  obtain ⟨shared, used, calls, nodes⟩ := frame
  simp only [Node.ranges, Prod.mk.injEq] at calls nodes
  refine ⟨shared ▸ inv.grown, ?_, fun id => ?_, fun id => ?_, fun thread call found => ?_, calls.1 ▸ inv.sole⟩
  · rw [shared, used]
    exact inv.uuids
  · rw [shared, (nodes id).2.1]
    exact inv.applied id
  · obtain ⟨running, applied, syncing, resolved, stored, counters⟩ := nodes id
    obtain ⟨okStored, okSyncing, okResolved, okCounters⟩ := inv.node id
    constructor
    all_goals simp only [shared, running, applied, syncing, resolved, stored, counters]; assumption
  · rw [calls.1] at found
    obtain ⟨running, -, syncing, resolved, -, counters⟩ := nodes call.node
    have ok := inv.call thread call found
    rw [shared, used]
    exact ok.congr (running ▸ ok.running) (by rw [counters]) resolved (syncing ▸ ok.stage)

end

@[simp] theorem Memory.setCounters_counters (memory : Memory) (kind : EntityKind)
    (counters : Counters) (other : EntityKind) :
    (memory.setCounters kind counters).counters other =
      if other = kind then counters else memory.counters other :=
  Function.update_apply ..

/-- The counters of one kind change. The limit does not fall, and a granted
call still finds its range there. -/
theorem RangeInv.setCounters (inv : RangeInv state) {counters : Counters}
    (ok : CountersOk (lastEnd kind (state.shared.log.take (state.nodes id).applied))
      (stageOf kind (state.nodes id).syncing) counters)
    (grows : ((state.nodes id).memory.counters kind).rangeEnd ≤ counters.rangeEnd)
    (keeps : ∀ thread call, state.entityCalls.get thread = some call → call.node = id →
      call.kind = kind → call.pc.granted (state.nodes id).resolved →
      counters.persisted = ((state.nodes id).memory.counters kind).persisted ∧
      counters.rangeEnd = ((state.nodes id).memory.counters kind).rangeEnd ∧
      (¬ call.pc.published → counters.next = ((state.nodes id).memory.counters kind).next)) :
    RangeInv (state.setCounters id kind counters) := by
  refine inv.setNode (inv.applied id) ?_ ?_
  · obtain ⟨stored, syncing, resolved, old⟩ := inv.node id
    refine ⟨stored, syncing, resolved, fun running other => ?_⟩
    rw [setCounters_counters]
    split
    next here =>
      exact here ▸ ok
    · exact old running other
  · rintro thread call found rfl
    have old := inv.call thread call found
    by_cases here : call.kind = kind
    · subst here
      refine old.moved old.running ?_ rfl fun granted => ⟨old.stage granted, ?_⟩ <;>
        simp only [setCounters_counters]
      · exact fun candidate limit point => le_trans (old.limit candidate limit point) grows
      · exact keeps thread call found rfl rfl granted
    · exact old.congr old.running (by rw [setCounters_counters, if_neg here]) rfl old.stage

theorem RangeInv.giveId (inv : RangeInv state) (kind : EntityKind) (id : Nat) :
    RangeInv (state.giveId kind id) :=
  ⟨inv.grown, inv.uuids, inv.applied, inv.node, inv.call, inv.sole⟩

theorem EntityPc.not_granted (plain : pc.request = none) (resolved : List Nat) :
    ¬ pc.granted resolved := by
  cases pc <;> simp_all [request, granted]

/-! ## The steps of a call -/

theorem RangeInv.counters (inv : RangeInv state) (running : (state.nodes id).running)
    (kind : EntityKind) : CountersOk (lastEnd kind (state.shared.log.take (state.nodes id).applied))
      (stageOf kind (state.nodes id).syncing) ((state.nodes id).memory.counters kind) :=
  (inv.node id).counters running kind

theorem CallOk.proposal_mem (ok : CallOk shared used node call)
    (request : call.pc.request = some (start, uuid))
    (committed : ∃ proposal ∈ shared.committedLog, proposal.uuid = uuid) :
    ⟨uuid, .nextEntityId call.kind (start + kIdRangeSize)⟩ ∈ shared.committedLog := by
  obtain ⟨⟨_, record⟩, mem, rfl⟩ := committed
  have known := shared.committedLog_initial.subset mem
  have same := ok.requested start _ request _ mem_cons_self _ known rfl
  cases same
  exact mem

section

variable (inv : RangeInv state)
include inv

theorem RangeInv.granted_unique {first second : Nat} {left right : EntityCall} {other another : Nat}
    (foundLeft : state.entityCalls.get first = some left)
    (foundRight : state.entityCalls.get second = some right) (node : left.node = right.node)
    (kind : left.kind = right.kind) (requestLeft : left.pc.request = some (start, uuid))
    (requestRight : right.pc.request = some (other, another))
    (grantedLeft : left.pc.granted (state.nodes left.node).resolved)
    (grantedRight : right.pc.granted (state.nodes right.node).resolved) : first = second := by
  have okLeft := inv.call first left foundLeft
  have okRight := inv.call second right foundRight
  obtain ⟨committedLeft, -, endLeft, -⟩ := okLeft.granted start uuid requestLeft grantedLeft
  obtain ⟨committedRight, -, endRight, -⟩ := okRight.granted other another requestRight grantedRight
  have memberLeft := okLeft.proposal_mem requestLeft committedLeft
  have memberRight := okRight.proposal_mem requestRight committedRight
  rw [node, kind] at endLeft
  have starts : start = other := by omega
  subst starts
  rw [kind] at memberLeft
  have grown := inv.grown.log.of_initial state.shared.committedLog_initial
  have here : InRange (start + kIdRangeSize) start := ⟨le_rfl, by simp [kIdRangeSize]⟩
  have same := Grown.proposal_unique grown memberLeft memberRight (if_pos rfl) (if_pos rfl) here here
  cases same
  exact inv.sole first second left right start start uuid foundLeft foundRight requestLeft
    requestRight

theorem RangeInv.take {candidate limit : Nat}
    (found : state.entityCalls.get thread = some ⟨id, kind, .take candidate limit⟩)
    (less : candidate < limit)
    (current : ((state.nodes id).memory.counters kind).next = candidate) :
    RangeInv (state.setCounters id kind
      { (state.nodes id).memory.counters kind with next := candidate + 1 }) := by
  have ok := inv.call thread _ found
  have counters := inv.counters (show (state.nodes id).running from ok.running) kind
  have within : limit ≤ ((state.nodes id).memory.counters kind).rangeEnd := ok.limit _ _ rfl
  have top := counters.rangeEnd_le
  refine inv.setCounters ⟨?_, counters.rangeEnd_le, counters.persisted_le, counters.persisted_eq,
    ?_, counters.rangeEnd_eq⟩ (le_rfl) ?_
  · exact le_trans less (le_trans within top)
  · intro late
    have := counters.next_eq late
    omega
  · rintro other call foundCall rfl rfl granted
    refine ⟨rfl, rfl, fun holds => ?_⟩
    -- a granted call that has not published yet leaves no id to take
    cases request : call.pc.request with
    | none => exact (not_granted request _ granted).elim
    | some pair =>
      have grant := (inv.call other call foundCall).granted pair.1 pair.2 request granted
      have := grant.rangeEnd
      have := grant.next holds
      omega

theorem RangeInv.lastEnd_of_caughtUp (running : (state.nodes id).running)
    (caughtUp : state.CaughtUp log id kind)
    (part : state.shared.log.take (state.nodes id).applied <+: log) :
    lastEnd kind log = ((state.nodes id).memory.counters kind).persisted := by
  have skipped := filterMap_eq_nil_iff.mpr caughtUp.1
  have persisted := (inv.counters running kind).persisted_eq (by simp [caughtUp.2])
  have within := le_trans (inv.applied id) state.shared.bounded
  have seen : log.take (state.nodes id).applied = state.shared.log.take (state.nodes id).applied := by
    have same := prefix_iff_eq_take.mp part
    rw [length_take, min_eq_left within] at same
    exact same.symm
  rw [persisted, ← take_append_drop (state.nodes id).applied log, lastEnd, lastRange, filterMap_append,
    skipped, append_nil, seen]
  rfl

theorem RangeInv.proposeRange
    (found : state.entityCalls.get thread = some ⟨id, kind, .propose start⟩)
    (unused : state.nextUuid ∉ state.used)
    (landed : state.shared.Posted shared onto ⟨state.nextUuid, .nextEntityId kind (start + kIdRangeSize)⟩)
    (last : ∀ log ∈ onto, lastEnd kind log = start) :
    RangeInv ((state.posted shared).setEntityCall thread
      (some ⟨id, kind, .waiting start state.nextUuid⟩)) := by
  have running : (state.nodes id).running := (inv.call thread _ found).running
  have proposed : RangeInv (state.posted shared) := by
    refine inv.posted landed unused fun log given other next range => ?_
    rw [rangeOf_nextEntityId] at range
    split at range
    next same =>
      cases range
      rw [← same, last log given]
    · cases range
  have unresolved : state.nextUuid ∉ (state.nodes id).resolved := by
    intro mem
    obtain ⟨proposal, seen, same⟩ := (inv.node id).resolved _ mem
    exact unused (same ▸ inv.uuids _ mem_cons_self proposal (mem_of_mem_take seen))
  refine proposed.setCall ⟨running, ?_, ?_, ?_, ?_, ?_⟩ ?_
  · exact fun _ _ point => nomatch point
  · rintro _ _ ⟨⟩
    exact mem_cons_self
  · rintro _ _ ⟨⟩
    exact landed.forall_mem (fun log mem proposal inLog same =>
      absurd (same ▸ inv.uuids log mem proposal inLog) unused) fun _ => rfl
  · exact fun granted => (unresolved granted).elim
  · exact fun _ _ _ granted => (unresolved granted).elim
  · rintro _ _ ⟨⟩ other _ another foundOther begins request
    exact unused ((inv.call other another foundOther).fresh _ _ request)

theorem RangeInv.gotoGranted (found : state.entityCalls.get thread = some call)
    (before : call.pc.request = some (start, uuid)) (after : pc.request = some (start, uuid))
    (granted : call.pc.granted (state.nodes call.node).resolved)
    (holds : ¬ pc.published → ¬ call.pc.published) : RangeInv (state.gotoEntity thread call pc) := by
  have ok := inv.call thread call found
  have same := before.trans after.symm
  refine inv.setCall ⟨ok.running, ?_, ?_, ?_, fun _ => ok.stage granted, ?_⟩ ?_
  · rintro candidate limit rfl
    cases after
  · exact fun _ _ request => ok.fresh _ _ (same.trans request)
  · exact fun _ _ request => ok.requested _ _ (same.trans request)
  · intro _ _ request _
    obtain ⟨committed, persisted, rangeEnd, next⟩ := ok.granted _ _ (same.trans request) granted
    exact ⟨committed, persisted, rangeEnd, fun unpublished => next (holds unpublished)⟩
  · intro begins other request third differs another foundAnother anotherStart requestAnother
    exact differs (inv.sole third thread another call anotherStart begins other foundAnother found
      requestAnother (same.trans request))

theorem RangeInv.storeNext
    (found : state.entityCalls.get thread = some ⟨id, kind, .storeNext start uuid⟩) :
    RangeInv ((state.gotoEntity thread ⟨id, kind, .storeNext start uuid⟩
      (.storeLimit start uuid)).setCounters id kind
        { (state.nodes id).memory.counters kind with next := start + 1 }) := by
  have ok := inv.call thread _ found
  have moved : RangeInv (state.gotoEntity thread ⟨id, kind, .storeNext start uuid⟩
      (.storeLimit start uuid)) :=
    inv.gotoGranted found rfl rfl trivial (fun unpublished => (unpublished trivial).elim)
  have counters := inv.counters (show (state.nodes id).running from ok.running) kind
  have stage : stageOf kind (state.nodes id).syncing = none := ok.stage trivial
  have rangeEnd : ((state.nodes id).memory.counters kind).rangeEnd = start + kIdRangeSize :=
    (ok.granted start uuid rfl trivial).rangeEnd
  refine moved.setCounters ⟨?_, counters.rangeEnd_le, counters.persisted_le,
    counters.persisted_eq, ?_, counters.rangeEnd_eq⟩ (le_rfl) ?_
  · have top := counters.rangeEnd_le
    rw [rangeEnd] at top
    exact le_trans (Nat.add_le_add_left (by decide) start) top
  · intro late
    change stageOf kind (state.nodes id).syncing = _ ∨ stageOf kind (state.nodes id).syncing = _ at late
    simp [stage] at late
  · rintro other call foundCall rfl rfl granted
    refine ⟨rfl, rfl, fun holds => ?_⟩
    cases request : call.pc.request with
    | none => exact (not_granted request _ granted).elim
    | some pair =>
      have mine : (state.gotoEntity thread ⟨call.node, call.kind, .storeNext start uuid⟩
          (.storeLimit start uuid)).entityCalls.get thread =
          some ⟨call.node, call.kind, .storeLimit start uuid⟩ := by
        rw [gotoEntity, setEntityCall_entityCalls, if_pos rfl]
      have same : thread = other :=
        moved.granted_unique mine foundCall rfl rfl rfl request trivial granted
      subst same
      rw [gotoEntity, setEntityCall_entityCalls, if_pos rfl, some.injEq] at foundCall
      rw [← foundCall] at holds
      exact (holds trivial).elim

end

theorem MetaInfo.write_nextEntityId (metaInfo : MetaInfo) (proposal : Proposal) (kind : EntityKind) :
    (metaInfo.write proposal.record).nextEntityId kind =
      (rangeOf kind proposal).or (metaInfo.nextEntityId kind) := by
  obtain ⟨uuid, record⟩ := proposal
  cases record with
  | nextEntityId other next =>
    rw [rangeOf_nextEntityId]
    by_cases same : other = kind
    · subst same
      simp [MetaInfo.write]
    · simp [MetaInfo.write, same, Ne.symm same]
  | token | other => rfl

theorem stageOf_some (kind : EntityKind) (proposal : Proposal) (stage : SyncStage) :
    stageOf kind (some ⟨proposal, stage⟩) = (rangeOf kind proposal).map fun _ => stage := rfl

variable {value : Nat}

section

variable (inv : RangeInv state)
include inv

theorem RangeInv.applyEntry (guard : rangeGuard state (.apply id))
    (taken : state.applyEntry id = some next) : RangeInv next := by
  obtain ⟨running, idle, behind, proposal, read, grows, rfl⟩ := applyEntry_cases taken
  have grown : SharedLog.Grown Allowed (state.shared.log.take ((state.nodes id).applied + 1)) :=
    inv.grown.log.take _
  obtain ⟨stored, -, resolved, counters⟩ := inv.node id
  refine inv.setNode behind ⟨fun kind => ?_, ?_, ?_, fun _ kind => ?_⟩ ?_
  · rw [MetaInfo.write_nextEntityId, grows, lastRange_snoc, stored]
  · rintro sync ⟨⟩
    exact ⟨_, grows⟩
  · intro uuid mem
    obtain ⟨earlier, seen, same⟩ := resolved uuid mem
    exact ⟨earlier, grows ▸ mem_append_left _ seen, same⟩
  · have old := counters running kind
    rw [grows, stageOf_some]
    cases range : rangeOf kind proposal with
    | none =>
      rw [lastEnd_snoc_other range]
      rw [idle] at old
      exact old
    | some value =>
      have top := Nat.le_of_add_right_le (grown _ [] proposal grows kind value range)
      have first : proposal.record.firstStage = .persisted := by
        obtain ⟨uuid, record⟩ := proposal
        cases record with
        | nextEntityId => rfl
        | token | other => cases range
      rw [lastEnd_snoc_range range, first]
      exact ⟨le_trans old.next_le top, le_trans old.rangeEnd_le top,
        le_trans old.persisted_le top, by simp, by simp, by simp⟩
  · rintro thread call found rfl
    have ok := inv.call thread call found
    refine ok.congr ok.running rfl rfl fun granted => ?_
    rw [stageOf_some]
    cases range : rangeOf call.kind proposal with
    | none => rfl
    | some value =>
      have mem := (Table.get_eq_some_iff _).mp found
      exact (guard.2 proposal (by rw [read]; exact mem_cons_self) _ mem rfl
        (by rw [range]; simp) granted).elim

theorem RangeInv.syncing_counters {stage : SyncStage}
    (syncing : (state.nodes id).syncing = some ⟨proposal, stage⟩)
    (range : rangeOf kind proposal = some value) (running : (state.nodes id).running) :
    CountersOk value (some stage) ((state.nodes id).memory.counters kind) := by
  obtain ⟨earlier, seen⟩ := (inv.node id).syncing _ syncing
  have counters := inv.counters running kind
  rwa [syncing, stageOf_some, range, seen, lastEnd_snoc_range range] at counters

/-- One access of `ApplyMetaRecord` to the counters of a node that is applying
the last range of its store. -/
theorem RangeInv.syncCounters
    {old new : SyncStage} {counters : Counters}
    (syncing : (state.nodes id).syncing = some ⟨proposal, old⟩)
    (range : rangeOf kind proposal = some value)
    (grows : ((state.nodes id).memory.counters kind).rangeEnd ≤ counters.rangeEnd)
    (ok : (state.nodes id).running → CountersOk value (some old)
      ((state.nodes id).memory.counters kind) → CountersOk value (some new) counters) :
    RangeInv (state.setNode id { state.nodes id with
      memory := (state.nodes id).memory.setCounters kind counters
      syncing := some ⟨proposal, new⟩ }) := by
  obtain ⟨stored, last, resolved, before⟩ := inv.node id
  have top : lastEnd kind (state.shared.log.take (state.nodes id).applied) = value := by
    obtain ⟨earlier, seen⟩ := last _ syncing
    rw [seen, lastEnd_snoc_range range]
  refine inv.setNode (inv.applied id) ⟨stored, ?_, resolved, fun running other => ?_⟩ ?_
  · rintro sync ⟨⟩
    exact last ⟨_, old⟩ syncing
  · rw [setCounters_counters, stageOf_some]
    split
    next here =>
      subst here
      rw [range, top]
      exact ok running (inv.syncing_counters syncing range running)
    next differs =>
      have this := before running other
      rw [syncing, stageOf_some] at this
      have none : rangeOf other proposal = none := by
        obtain ⟨uuid, record⟩ := proposal
        cases record with
        | nextEntityId only next =>
          rw [rangeOf_nextEntityId] at range ⊢
          split at range
          next same =>
            rw [if_neg (by rw [same]; exact Ne.symm differs)]
          · cases range
        | token | other => cases range
      rw [none] at this ⊢
      exact this
  · rintro thread call found rfl
    have callOk := inv.call thread call found
    by_cases here : call.kind = kind
    · -- no call of this kind is granted while a range of the kind is being applied
      have idle : ¬ call.pc.granted (state.nodes call.node).resolved := by
        intro granted
        have stage := callOk.stage granted
        rw [syncing, stageOf_some, here, range] at stage
        cases stage
      refine callOk.moved callOk.running ?_ rfl fun granted => (idle granted).elim
      intro candidate limit point
      rw [setCounters_counters, if_pos here]
      exact le_trans (callOk.limit candidate limit point) (here ▸ grows)
    · refine callOk.congr callOk.running (by rw [setCounters_counters, if_neg here]) rfl fun granted => ?_
      have stage := callOk.stage granted
      rw [syncing] at stage
      rw [stageOf_some] at stage ⊢
      cases found : rangeOf call.kind proposal with
      | none => rfl
      | some => simp [found] at stage

/-- The promise of an applied proposal is resolved: the call that waits for it
finds its range right behind the counters. -/
theorem RangeInv.resolve
    (syncing : (state.nodes id).syncing = some ⟨proposal, .done⟩) :
    RangeInv (state.setNode id { state.nodes id with
      syncing := none, resolved := proposal.uuid :: (state.nodes id).resolved }) := by
  obtain ⟨stored, last, resolved, before⟩ := inv.node id
  obtain ⟨earlier, seen⟩ := last _ syncing
  refine inv.setNode (inv.applied id) ⟨stored, (fun _ sync => nomatch sync), ?_, ?_⟩ ?_
  · intro uuid mem
    rcases mem_cons.mp mem with rfl | mem
    · exact ⟨proposal, seen ▸ mem_append_right _ mem_cons_self, rfl⟩
    · exact resolved uuid mem
  · intro running kind
    obtain ⟨nextLe, rangeEndLe, persistedLe, persistedEq, -, -⟩ := before running kind
    refine ⟨nextLe, rangeEndLe, persistedLe, fun _ => persistedEq ?_, by simp [stageOf],
      by simp [stageOf]⟩
    rw [syncing, stageOf_some]
    cases rangeOf kind proposal <;> simp
  · rintro thread call found rfl
    have ok := inv.call thread call found
    -- the counters agree with the range of a call that this step grants
    have grants : ∀ start uuid, call.pc.request = some (start, uuid) →
        call.pc.granted (proposal.uuid :: (state.nodes call.node).resolved) →
        (proposal ∈ state.shared.committedLog ∧ proposal.uuid = uuid ∧
          (state.nodes call.node).memory.counters call.kind =
            ⟨start + kIdRangeSize, start + kIdRangeSize, start + kIdRangeSize⟩) ∨
        call.pc.granted (state.nodes call.node).resolved := by
      intro start uuid request granted
      have isNew : proposal.uuid = uuid ∨ call.pc.granted (state.nodes call.node).resolved := by
        obtain ⟨node, kind, pc⟩ := call
        cases pc <;> cases request
        · exact (mem_cons.mp granted).imp_left Eq.symm
        all_goals exact .inr trivial
      refine isNew.imp_left fun same => ?_
      have mem : proposal ∈ state.shared.log.take (state.nodes call.node).applied :=
        seen ▸ mem_append_right _ mem_cons_self
      have record := ok.requested start uuid request _ mem_cons_self proposal
        (mem_of_mem_take mem) same
      have range : rangeOf call.kind proposal = some (start + kIdRangeSize) := by
        rw [rangeOf, record]
        exact if_pos rfl
      have counters := inv.syncing_counters syncing range ok.running
      exact ⟨mem_committedLog_of_take (inv.applied _) mem, same,
        Counters.ext (counters.next_eq (.inr rfl)) (counters.rangeEnd_eq rfl)
          (counters.persisted_eq (by simp))⟩
    refine ⟨ok.running, ok.limit, ok.fresh, ok.requested, fun _ => rfl, fun start uuid request granted => ?_⟩
    rcases grants start uuid request granted with ⟨mem, same, counters⟩ | granted
    · rw [counters]
      exact ⟨⟨proposal, mem, same⟩, rfl, rfl, fun _ => rfl⟩
    · exact ok.granted start uuid request granted

/-! ## Crashes and restarts -/

theorem RangeInv.crash (id : Nat) :
    RangeInv (state.crash id) where
  grown := inv.grown
  uuids := inv.uuids
  applied other := by
    rw [State.crash_applied]
    exact inv.applied other
  node other := by
    by_cases same : other = id
    · subst same
      simp only [State.crash, Function.update_self]
      exact ⟨(inv.node other).stored, by simp [Node.fresh], by simp [Node.fresh], by simp⟩
    · simpa [State.crash, same] using inv.node other
  call thread call found := by
    obtain ⟨found, elsewhere⟩ := State.crash_entityCalls found
    simpa [State.crash, elsewhere] using inv.call thread call found
  sole first second left right start other uuid foundLeft foundRight :=
    inv.sole first second left right start other uuid (State.crash_entityCalls foundLeft).1
      (State.crash_entityCalls foundRight).1

theorem RangeInv.restart (stopped : (state.nodes id).running = false) :
    RangeInv (state.restart id) := by
  obtain ⟨stored, -, -, -⟩ := inv.node id
  refine inv.setNode (inv.applied id) ⟨stored, (fun _ sync => nomatch sync),
    (fun _ mem => nomatch mem), fun _ kind => ?_⟩ ?_
  · simp only [opened, stored]
    exact ⟨le_rfl, le_rfl, le_rfl, fun _ => rfl, fun _ => rfl, fun _ => rfl⟩
  · rintro thread call found rfl
    exact absurd (inv.call thread call found).running (by simp [stopped])

end

theorem RangeInv.init : RangeInv State.init where
  grown := .empty
  uuids log mem proposal found := by
    rw [mem_singleton.mp mem] at found
    cases found
  applied _ := le_rfl
  node _ := ⟨fun _ => rfl, (fun _ sync => nomatch sync), (fun _ mem => nomatch mem),
    fun _ _ => ⟨le_rfl, le_rfl, le_rfl, fun _ => rfl, fun _ => rfl,
      fun _ => rfl⟩⟩
  call _ _ found := nomatch found
  sole _ _ _ _ _ _ _ found := nomatch found

/-- The parties that may hold an id: whoever `GetNextEntityId` returned it to,
a node whose counters will hand it out, and a call that has reserved it. -/
inductive Holder where
  | caller
  | node (id : Nat)
  | call (thread : Nat)

/-- The ids that a call has reserved by a committed record and not given away. -/
def EntityCall.Reserves (committed : List Proposal) (call : EntityCall) (id : Nat) : Prop :=
  match call.pc with
  | .waiting start uuid | .storePersisted start uuid | .storeNext start uuid =>
    (∃ proposal ∈ committed, proposal.uuid = uuid) ∧ start ≤ id ∧ id < start + kIdRangeSize
  | .storeLimit start _ => id = start
  | _ => False

def State.Holds (state : State) : Holder → EntityKind → Nat → Prop
  | .caller, kind, id => (kind, id) ∈ state.returned
  | .node node, kind, id => (state.nodes node).running ∧
      ((state.nodes node).memory.counters kind).next ≤ id ∧
      id < ((state.nodes node).memory.counters kind).rangeEnd
  | .call thread, kind, id => ∃ call, state.entityCalls.get thread = some call ∧ call.kind = kind ∧
      call.Reserves state.shared.committedLog id

structure FreshInv (state : State) : Prop where
  sole : ∀ first second kind id,
    state.Holds first kind id → state.Holds second kind id → first = second
  covered : ∀ holder kind id, state.Holds holder kind id →
    Covered state.shared.committedLog kind id
  nodup : state.returned.Nodup

def Hands (source target : Holder) (state next : State) : Prop :=
  ∀ holder kind id, next.Holds holder kind id → state.Holds holder kind id ∨
    holder = target ∧ state.Holds source kind id ∧ ¬ next.Holds source kind id

theorem FreshInv.hands (inv : FreshInv state) (source target : Holder)
    (hands : Hands source target state next)
    (committed : next.shared.committedLog = state.shared.committedLog)
    (nodup : next.returned.Nodup) : FreshInv next where
  sole first second kind id left right := by
    rcases hands first kind id left with left' | ⟨rfl, given, gone⟩
    · rcases hands second kind id right with right' | ⟨rfl, given, gone⟩
      · exact inv.sole first second kind id left' right'
      · exact absurd left (inv.sole first source kind id left' given ▸ gone)
    · rcases hands second kind id right with right' | ⟨rfl, -, -⟩
      · exact absurd right (inv.sole second source kind id right' given ▸ gone)
      · rfl
  covered holder kind id holds := by
    rw [committed]
    rcases hands holder kind id holds with holds | ⟨-, given, -⟩
    · exact inv.covered holder kind id holds
    · exact inv.covered source kind id given
  nodup := nodup

theorem FreshInv.mono (inv : FreshInv state)
    (fewer : ∀ holder kind id, next.Holds holder kind id → state.Holds holder kind id)
    (committed : next.shared.committedLog = state.shared.committedLog)
    (returned : next.returned = state.returned) : FreshInv next :=
  inv.hands .caller .caller
    (fun holder kind id holds => .inl (fewer holder kind id holds)) committed
    (returned ▸ inv.nodup)

theorem FreshInv.not_returned (inv : FreshInv state) {holder : Holder}
    (holds : state.Holds holder kind id) (other : holder ≠ .caller) : (kind, id) ∉ state.returned :=
  fun mem => other (inv.sole holder .caller kind id holds mem)

theorem EntityCall.reserves_cases {committed : List Proposal}
    (reserves : call.Reserves committed id) : ∃ start uuid, call.pc.request = some (start, uuid) ∧
      start ≤ id ∧ id < start + kIdRangeSize ∧
      (call.pc.published ∨ ∃ proposal ∈ committed, proposal.uuid = uuid) := by
  obtain ⟨node, kind, pc⟩ := call
  cases pc with
  | waiting start uuid | storePersisted start uuid | storeNext start uuid =>
    exact ⟨start, uuid, rfl, reserves.2.1, reserves.2.2, .inr reserves.1⟩
  | storeLimit start uuid =>
    refine ⟨start, uuid, rfl, le_of_eq reserves.symm, ?_, .inl trivial⟩
    have positive : 0 < kIdRangeSize := by decide
    have same : id = start := reserves
    omega
  | _ => exact reserves.elim

theorem RangeInv.reserved (inv : RangeInv state) (found : state.entityCalls.get thread = some call)
    (reserves : call.Reserves state.shared.committedLog id) :
    ∃ start uuid, call.pc.request = some (start, uuid) ∧ InRange (start + kIdRangeSize) id ∧
      ⟨uuid, .nextEntityId call.kind (start + kIdRangeSize)⟩ ∈ state.shared.committedLog := by
  have ok := inv.call thread call found
  obtain ⟨start, uuid, request, low, high, held⟩ := EntityCall.reserves_cases reserves
  refine ⟨start, uuid, request, ⟨by omega, high⟩, ok.proposal_mem request ?_⟩
  rcases held with published | committed
  · refine (ok.granted start uuid request ?_).committed
    obtain ⟨node, kind, pc⟩ := call
    cases pc <;> first | exact trivial | exact published.elim
  · exact committed

section

variable (inv : FreshInv state)
include inv

/-- An election or a commit gives a call at most the range of its own proposal,
which nobody held before. -/
theorem FreshInv.follows (ranges : RangeInv state)
    (follows : state.shared.Follows shared) :
    FreshInv { state with shared := shared } := by
  have after := ranges.follows follows
  have grown := after.grown.log.of_initial shared.committedLog_initial
  -- an id that is held after the step was held before or lies in a newly committed range
  have cases : ∀ holder kind id, State.Holds { state with shared := shared } holder kind id →
      state.Holds holder kind id ∨ ∃ thread call start proposal, holder = .call thread ∧
        state.entityCalls.get thread = some call ∧ call.pc.request = some (start, proposal.uuid) ∧
        rangeOf kind proposal = some (start + kIdRangeSize) ∧ InRange (start + kIdRangeSize) id ∧
        proposal ∈ shared.committedLog ∧ proposal ∉ state.shared.committedLog := by
    intro holder kind id holds
    cases holder with
    | caller | node => exact .inl holds
    | call thread =>
      obtain ⟨call, found, rfl, reserves⟩ := holds
      obtain ⟨start, uuid, request, range, mem⟩ := after.reserved found reserves
      by_cases known : (⟨uuid, .nextEntityId call.kind (start + kIdRangeSize)⟩ : Proposal) ∈
          state.shared.committedLog
      · refine .inl ⟨call, found, rfl, ?_⟩
        obtain ⟨node, kind, pc⟩ := call
        cases pc <;> first | exact reserves.elim | exact reserves | skip
        all_goals
          cases request
          exact ⟨⟨_, known, rfl⟩, reserves.2⟩
      · exact .inr ⟨thread, call, start, ⟨uuid, .nextEntityId _ _⟩, rfl, found, request, if_pos rfl, range, mem, known⟩
  have covered : ∀ holder kind id, State.Holds { state with shared := shared } holder kind id →
      Covered shared.committedLog kind id := by
    intro holder kind id holds
    rcases cases holder kind id holds with holds | ⟨_, _, _, proposal, -, -, -, found, range, mem, -⟩
    · obtain ⟨proposal, mem, next, found, range⟩ := inv.covered holder kind id holds
      exact ⟨proposal, follows.mem_committedLog mem, next, found, range⟩
    · exact ⟨proposal, mem, _, found, range⟩
  have known_of_holds : ∀ {holder kind id proposal next}, state.Holds holder kind id → rangeOf kind proposal = some next →
      InRange next id → proposal ∈ shared.committedLog → proposal ∈ state.shared.committedLog := by
    intro holder kind id proposal next holds found range mem
    obtain ⟨earlier, known, next, foundEarlier, inside⟩ := inv.covered holder kind id holds
    exact Grown.proposal_unique grown (follows.mem_committedLog known) mem foundEarlier found inside range ▸ known
  refine ⟨fun first second kind id left right => ?_, covered, inv.nodup⟩
  rcases cases first kind id left with left | ⟨one, call, _, _, rfl, read, request, found, range, mem, unknown⟩
  · rcases cases second kind id right with right | ⟨_, _, _, _, rfl, _, _, found, range, mem, unknown⟩
    · exact inv.sole first second kind id left right
    · exact absurd (known_of_holds left found range mem) unknown
  · rcases cases second kind id right with right | ⟨two, another, _, _, rfl, read', request', found', range', mem', -⟩
    · exact absurd (known_of_holds right found range mem) unknown
    cases Grown.proposal_unique grown mem mem' found found' range range'
    rw [ranges.sole one two call another _ _ _ read read' request request']

theorem FreshInv.setEntityCall (fewer : ∀ call ∈ changed,
    ∀ id, call.Reserves state.shared.committedLog id → state.Holds (.call thread) call.kind id) :
    FreshInv (state.setEntityCall thread changed) := by
  refine inv.mono (fun holder kind id holds => ?_) rfl rfl
  cases holder with
  | caller | node => exact holds
  | call other =>
    obtain ⟨another, found, rfl, reserves⟩ := holds
    rw [setEntityCall_entityCalls] at found
    split at found
    next same =>
      exact same ▸ fewer another found id reserves
    · exact ⟨another, found, rfl, reserves⟩

theorem FreshInv.setCall
    (fewer : ∀ id, call.Reserves state.shared.committedLog id → state.Holds (.call thread) call.kind id) :
    FreshInv (state.setEntityCall thread (some call)) :=
  inv.setEntityCall (by rintro _ ⟨⟩; exact fewer)

theorem FreshInv.setNode
    (fewer : ∀ kind number, node.running → (node.memory.counters kind).next ≤ number →
      number < (node.memory.counters kind).rangeEnd → state.Holds (.node id) kind number) :
    FreshInv (state.setNode id node) := by
  refine inv.mono (fun holder kind number holds => ?_) rfl rfl
  cases holder with
  | caller | call => exact holds
  | node other =>
    obtain ⟨running, low, high⟩ := holds
    rw [setNode_nodes] at running low high
    split at running
    next same =>
      rw [if_pos same] at low high
      exact same ▸ fewer kind number running low high
    next differs =>
      rw [if_neg differs] at low high
      exact ⟨running, low, high⟩

theorem FreshInv.frame (frame : RangeFrame state next) : FreshInv next := by
  obtain ⟨shared, -, calls, nodes⟩ := frame
  simp only [Node.ranges, Prod.mk.injEq] at calls nodes
  refine inv.mono (fun holder kind id holds => ?_) (by rw [shared]) calls.2
  cases holder with
  | caller =>
    rw [State.Holds, ← calls.2]
    exact holds
  | node node =>
    obtain ⟨running, low, high⟩ := holds
    obtain ⟨same, -, -, -, -, counters⟩ := nodes node
    rw [same] at running
    rw [counters] at low high
    exact ⟨running, low, high⟩
  | call thread =>
    obtain ⟨call, found, kinds, reserves⟩ := holds
    exact ⟨call, calls.1 ▸ found, kinds, shared ▸ reserves⟩

theorem FreshInv.posted {proposal : Proposal} (landed : state.shared.Posted shared onto proposal) :
    FreshInv (state.posted shared) := by
  refine inv.mono (fun holder kind id holds => ?_) landed.committedLog rfl
  cases holder with
  | caller | node => exact holds
  | call other =>
    obtain ⟨call, found, same, reserves⟩ := holds
    exact ⟨call, found, same, landed.committedLog ▸ reserves⟩

end

theorem State.setCounters_holds {counters : Counters} {node number : Nat} {other : EntityKind} :
    (state.setCounters id kind counters).Holds (.node node) other number ↔ (state.nodes node).running ∧
      if node = id ∧ other = kind then counters.next ≤ number ∧ number < counters.rangeEnd
      else ((state.nodes node).memory.counters other).next ≤ number ∧
        number < ((state.nodes node).memory.counters other).rangeEnd := by
  rw [State.Holds, setCounters]
  by_cases here : node = id
  · subst here
    by_cases same : other = kind <;> simp [same]
  · simp [here]

section

variable (inv : FreshInv state)
include inv

theorem FreshInv.take (ranges : RangeInv state) {candidate limit : Nat}
    (found : state.entityCalls.get thread = some ⟨id, kind, .take candidate limit⟩)
    (less : candidate < limit)
    (current : ((state.nodes id).memory.counters kind).next = candidate) :
    FreshInv ((state.setCounters id kind
      { (state.nodes id).memory.counters kind with next := candidate + 1 }).giveId kind candidate) := by
  have ok := ranges.call thread _ found
  have within : limit ≤ ((state.nodes id).memory.counters kind).rangeEnd := ok.limit _ _ rfl
  have held : state.Holds (.node id) kind candidate :=
    ⟨ok.running, le_of_eq current, lt_of_lt_of_le less within⟩
  refine inv.hands (.node id) .caller (fun holder other number holds => ?_)
    rfl (nodup_cons.mpr ⟨inv.not_returned held (by simp), inv.nodup⟩)
  cases holder with
  | caller =>
    rcases mem_cons.mp holds with same | old
    · cases same
      refine .inr ⟨rfl, held, fun again => ?_⟩
      have range := (setCounters_holds.mp again).2
      rw [if_pos ⟨rfl, rfl⟩] at range
      exact Nat.not_succ_le_self candidate range.1
    · exact .inl old
  | call => exact .inl holds
  | node node =>
    obtain ⟨running, range⟩ := setCounters_holds.mp holds
    refine .inl ⟨running, ?_⟩
    split at range
    next here =>
      obtain ⟨rfl, rfl⟩ := here
      exact ⟨current ▸ Nat.le_of_succ_le range.1, range.2⟩
    · exact range

theorem FreshInv.storeNext (ranges : RangeInv state)
    (found : state.entityCalls.get thread = some ⟨id, kind, .storeNext start uuid⟩) :
    FreshInv ((state.gotoEntity thread ⟨id, kind, .storeNext start uuid⟩
      (.storeLimit start uuid)).setCounters id kind
        { (state.nodes id).memory.counters kind with next := start + 1 }) := by
  have ok := ranges.call thread _ found
  obtain ⟨committed, -, rangeEnd, -⟩ := ok.granted start uuid rfl trivial
  refine inv.hands (.call thread) (.node id)
    (fun holder other number holds => ?_) rfl inv.nodup
  cases holder with
  | caller => exact .inl holds
  | call another =>
    obtain ⟨call, read, rfl, reserves⟩ := holds
    change (state.setEntityCall thread _).entityCalls.get another = some call at read
    rw [setEntityCall_entityCalls] at read
    split at read
    next same =>
      cases read
      have first : number = start := reserves
      have positive : 0 < kIdRangeSize := by decide
      exact .inl (same ▸ ⟨_, found, rfl, committed, by omega, by omega⟩)
    · exact .inl ⟨call, read, rfl, reserves⟩
  | node another =>
    obtain ⟨running, range⟩ := setCounters_holds.mp holds
    split at range
    next here =>
      obtain ⟨rfl, rfl⟩ := here
      have behind : start < number := range.1
      refine .inr ⟨rfl, ⟨_, found, rfl, committed, le_of_lt behind, rangeEnd ▸ range.2⟩, ?_⟩
      rintro ⟨call, read, -, reserves⟩
      change (state.setEntityCall thread _).entityCalls.get thread = some call at read
      rw [setEntityCall_entityCalls, if_pos rfl] at read
      cases read
      exact ne_of_gt behind reserves
    · exact .inl ⟨running, range⟩

theorem FreshInv.storeLimit
    (found : state.entityCalls.get thread = some ⟨id, kind, .storeLimit start uuid⟩) :
    FreshInv ((state.giveId kind start).setEntityCall thread none) := by
  have held : state.Holds (.call thread) kind start := ⟨_, found, rfl, rfl⟩
  refine inv.hands (.call thread) .caller
    (fun holder other number holds => ?_) rfl
    (nodup_cons.mpr ⟨inv.not_returned held (by simp), inv.nodup⟩)
  cases holder with
  | caller =>
    rcases mem_cons.mp holds with same | old
    · cases same
      refine .inr ⟨rfl, held, ?_⟩
      rintro ⟨call, read, -, -⟩
      rw [setEntityCall_entityCalls, if_pos rfl] at read
      cases read
    · exact .inl old
  | node => exact .inl holds
  | call another =>
    obtain ⟨call, read, same, reserves⟩ := holds
    rw [setEntityCall_entityCalls] at read
    split at read
    · cases read
    · exact .inl ⟨call, read, same, reserves⟩

theorem FreshInv.crash (id : Nat) : FreshInv (state.crash id) := by
  refine inv.mono (fun holder kind number holds => ?_) rfl rfl
  cases holder with
  | caller => exact holds
  | call thread =>
    obtain ⟨call, found, same, reserves⟩ := holds
    exact ⟨call, (State.crash_entityCalls found).1, same, reserves⟩
  | node other =>
    by_cases same : other = id
    · subst same
      have running := holds.1
      simp [State.crash] at running
    · simpa [State.Holds, State.crash, same] using holds

end

theorem FreshInv.init : FreshInv State.init := by
  have empty : ∀ holder kind id, ¬ State.init.Holds holder kind id := by
    intro holder kind id holds
    cases holder with
    | caller => cases holds
    | node node =>
      have low : 1 ≤ id := holds.2.1
      have high : id < 1 := holds.2.2
      omega
    | call thread =>
      obtain ⟨call, found, -⟩ := holds
      cases found
  exact ⟨fun first _ kind id holds => (empty first kind id holds).elim,
    fun holder kind id holds => (empty holder kind id holds).elim, nodup_nil⟩

/-! ## Every step -/

structure IdInv (state : State) : Prop where
  ranges : RangeInv state
  fresh : FreshInv state

section

variable (inv : IdInv state)
include inv

theorem IdInv.frame (frame : RangeFrame state next) : IdInv next :=
  ⟨inv.ranges.frame frame, inv.fresh.frame frame⟩

theorem IdInv.setRefillOwner (id : Nat) (kind : EntityKind) (owner : Option Nat) :
    IdInv (state.setRefillOwner id kind owner) :=
  inv.frame (.setNode rfl rfl)

theorem IdInv.storeSame (id : Nat) (kind : EntityKind) :
    IdInv (state.setCounters id kind ((state.nodes id).memory.counters kind)) :=
  inv.frame (.setNode (by simp [Node.ranges, Memory.setCounters]) rfl)

theorem IdInv.clearCall (thread : Nat) : IdInv (state.setEntityCall thread none) :=
  ⟨inv.ranges.setEntityCall (by simp) (by simp), inv.fresh.setEntityCall (by simp)⟩

theorem IdInv.throwEntity (thread : Nat) (call : EntityCall) :
    IdInv (state.throwEntity thread call) :=
  (inv.setRefillOwner call.node call.kind none).clearCall thread

theorem IdInv.gotoPlain (running : (state.nodes call.node).running) (plain : pc.request = none)
    (limit : ∀ candidate limit, pc = .take candidate limit →
      limit ≤ ((state.nodes call.node).memory.counters call.kind).rangeEnd := by simp) :
    IdInv (state.gotoEntity thread call pc) := by
  refine ⟨inv.ranges.setCall ?_ (by simp [plain]), inv.fresh.setCall fun id reserves => ?_⟩
  · refine ⟨running, limit, ?_, ?_, ?_, ?_⟩ <;>
      simp [plain, not_granted plain]
  obtain ⟨start, uuid, request, -⟩ := EntityCall.reserves_cases reserves
  rw [plain] at request
  cases request

theorem IdInv.posted (landed : state.shared.Posted shared onto ⟨state.nextUuid, record⟩)
    (unused : state.nextUuid ∉ state.used) (other : ∀ kind, rangeOf kind ⟨state.nextUuid, record⟩ = none) :
    IdInv (state.posted shared) := by
  refine ⟨inv.ranges.posted landed unused fun log _ kind next range => ?_, inv.fresh.posted landed⟩
  rw [other kind] at range
  cases range

theorem IdInv.proposeRange
    (found : state.entityCalls.get thread = some ⟨id, kind, .propose start⟩)
    (unused : state.nextUuid ∉ state.used)
    (landed : state.shared.Posted shared onto ⟨state.nextUuid, .nextEntityId kind (start + kIdRangeSize)⟩)
    (part : ∀ log ∈ onto, state.shared.log.take (state.nodes id).applied <+: log)
    (upToDate : ∀ log ∈ onto, state.UpToDate log ⟨id, kind, .propose start⟩) :
    IdInv ((state.posted shared).setEntityCall thread
      (some ⟨id, kind, .waiting start state.nextUuid⟩)) := by
  have running : (state.nodes id).running := (inv.ranges.call thread _ found).running
  refine ⟨inv.ranges.proposeRange found unused landed fun log given => ?_,
    (inv.fresh.posted landed).setCall fun number reserves => ?_⟩
  · obtain ⟨caughtUp, current⟩ := upToDate log given rfl
    rw [inv.ranges.lastEnd_of_caughtUp running caughtUp (part log given)]
    exact (propose.inj current).symm
  · -- the new request id occurs in no committed proposal
    obtain ⟨proposal, mem, same⟩ := reserves.1
    change proposal ∈ shared.committedLog at mem
    rw [landed.committedLog] at mem
    have known := inv.ranges.uuids _ mem_cons_self proposal (state.shared.committedLog_initial.subset mem)
    exact absurd (same ▸ known) unused

theorem IdInv.strayEntity (guard : rangeGuard state (.strayEntity thread onto))
    (taken : state.step (.strayEntity thread onto) = some next) : IdInv next := by
  dsimp only [State.step] at taken
  split at taken
  next id kind start found =>
    obtain ⟨part, taken⟩ := ite_none_right_eq_some.mp taken
    obtain ⟨_, strayed, rfl⟩ := map_eq_some_iff.mp taken
    obtain ⟨shared, landed, rfl⟩ := stray_posted strayed
    exact inv.proposeRange found (guard.1 rfl) landed part
      (guard.2 _ ((Table.get_eq_some_iff _).mp found) rfl)
  · cases taken

theorem IdInv.stepEntity (found : state.entityCalls.get thread = some call)
    (guard : rangeGuard state (.stepEntity thread)) (taken : state.stepEntity thread call = some next) :
    IdInv next := by
  have ok := inv.ranges.call thread call found
  obtain ⟨id, kind, pc⟩ := call
  have running : (state.nodes id).running := ok.running
  cases pc with
  | loadNext | reloadNext =>
    cases taken
    exact inv.gotoPlain running rfl
  | loadLimit candidate =>
    cases taken
    refine inv.gotoPlain running rfl ?_
    rintro _ _ ⟨⟩
    exact le_rfl
  | take candidate limit =>
    dsimp only [State.stepEntity] at taken
    split at taken
    next less =>
      split at taken <;> cases taken
      next current =>
        have given : IdInv _ := ⟨(inv.ranges.take found less current).giveId kind candidate,
          inv.fresh.take inv.ranges found less current⟩
        exact given.clearCall thread
      · refine inv.gotoPlain running rfl ?_
        rintro _ _ ⟨⟩
        exact ok.limit _ _ rfl
    · cases taken
      exact inv.gotoPlain running rfl
  | lockRefill =>
    dsimp only [State.stepEntity] at taken
    split at taken <;> cases taken
    refine (inv.setRefillOwner id kind (some thread)).gotoPlain ?_ rfl
    simpa [State.setRefillOwner] using running
  | reloadLimit candidate =>
    dsimp only [State.stepEntity] at taken
    split at taken <;> cases taken
    · refine (inv.setRefillOwner id kind none).gotoPlain ?_ rfl
      simpa [State.setRefillOwner] using running
    · exact inv.gotoPlain running rfl
  | loadPersisted =>
    dsimp only [State.stepEntity] at taken
    split at taken <;> cases taken
    · exact inv.throwEntity thread _
    · exact inv.gotoPlain running rfl
  | propose start =>
    dsimp only [State.stepEntity] at taken
    split at taken <;> cases taken
    · refine inv.proposeRange found (guard.1 (by simp [takesId, found, EntityPc.proposes]))
        (append_posted ..) ?_ ?_
      · rintro _ ⟨⟩
        exact take_prefix _ _
      · rintro _ ⟨⟩
        exact guard.2 _ ((Table.get_eq_some_iff _).mp found) rfl
    · exact inv.throwEntity thread _
  | waiting start uuid =>
    dsimp only [State.stepEntity] at taken
    split at taken <;> cases taken
    rename_i resolved
    exact ⟨inv.ranges.gotoGranted found rfl rfl resolved fun holds => holds,
      inv.fresh.setCall fun number reserves => ⟨_, found, rfl, reserves⟩⟩
  | storePersisted start uuid =>
    cases taken
    have current : ((state.nodes id).memory.counters kind).persisted = start + kIdRangeSize :=
      (ok.granted start uuid rfl trivial).persisted
    rw [← current]
    have same := inv.storeSame id kind
    exact ⟨same.ranges.gotoGranted found rfl rfl trivial fun holds => holds,
      same.fresh.setCall fun number reserves => ⟨_, found, rfl, reserves⟩⟩
  | storeNext start uuid =>
    cases taken
    exact ⟨inv.ranges.storeNext found, inv.fresh.storeNext inv.ranges found⟩
  | storeLimit start uuid =>
    cases taken
    have current : ((state.nodes id).memory.counters kind).rangeEnd = start + kIdRangeSize :=
      (ok.granted start uuid rfl trivial).rangeEnd
    rw [← current]
    have same := (inv.storeSame id kind).setRefillOwner id kind none
    exact ⟨(same.ranges.giveId kind start).setEntityCall (by simp) (by simp), same.fresh.storeLimit found⟩

theorem IdInv.syncCounters {old new : SyncStage} {counters : Counters}
    (syncing : (state.nodes id).syncing = some ⟨proposal, old⟩) (range : rangeOf kind proposal = some value)
    (grows : ((state.nodes id).memory.counters kind).rangeEnd ≤ counters.rangeEnd)
    (ok : CountersOk value (some old) ((state.nodes id).memory.counters kind) →
      CountersOk value (some new) counters ∧ ∀ number, counters.next ≤ number → number < counters.rangeEnd →
        ((state.nodes id).memory.counters kind).next ≤ number ∧
        number < ((state.nodes id).memory.counters kind).rangeEnd) :
    IdInv (state.setNode id { state.nodes id with
      memory := (state.nodes id).memory.setCounters kind counters
      syncing := some ⟨proposal, new⟩ }) := by
  refine ⟨inv.ranges.syncCounters syncing range grows fun _ old => (ok old).1,
    inv.fresh.setNode fun other number running low high => ?_⟩
  rw [setCounters_counters] at low high
  split at low
  next same =>
    rw [if_pos same] at high
    exact same ▸ ⟨running, (ok (inv.ranges.syncing_counters syncing range running)).2 number low high⟩
  next differs =>
    rw [if_neg differs] at high
    exact ⟨running, low, high⟩

theorem IdInv.syncStep (taken : state.syncStep id = some next) : IdInv next := by
  dsimp only [State.syncStep] at taken
  split at taken
  · cases taken
  rename_i uuid record stage syncing
  split at taken
  · split at taken <;> cases taken
    refine inv.syncCounters syncing (if_pos rfl) (Nat.le_refl _) fun ok => ⟨?_, fun _ low high => ⟨low, high⟩⟩
    exact ⟨ok.next_le, ok.rangeEnd_le, Nat.max_le.mpr ⟨ok.persisted_le, Nat.le_refl _⟩,
      fun _ => Nat.max_eq_right ok.persisted_le, by simp, by simp⟩
  · cases taken
    refine inv.syncCounters syncing (if_pos rfl) (Nat.le_refl _) fun ok =>
      ⟨?_, fun _ low high => ⟨(Nat.max_le.mp low).1, high⟩⟩
    exact ⟨Nat.max_le.mpr ⟨ok.next_le, Nat.le_refl _⟩, ok.rangeEnd_le, ok.persisted_le,
      fun _ => ok.persisted_eq (by simp), fun _ => Nat.max_eq_right ok.next_le, by simp⟩
  · cases taken
    refine inv.syncCounters syncing (if_pos rfl) (Nat.le_max_left _ _) fun ok => ⟨?_, fun number low high => ?_⟩
    · exact ⟨ok.next_le, Nat.max_le.mpr ⟨ok.rangeEnd_le, Nat.le_refl _⟩, ok.persisted_le,
        fun _ => ok.persisted_eq (by simp), fun _ => ok.next_eq (.inl rfl),
        fun _ => Nat.max_eq_right ok.rangeEnd_le⟩
    · have := ok.next_eq (.inl rfl)
      dsimp only at low high
      omega
  · cases taken
    refine ⟨?_, inv.fresh.setNode fun kind number running low high => ⟨running, low, high⟩⟩
    obtain ⟨stored, last, resolved, before⟩ := inv.ranges.node id
    rw [syncing] at before
    refine inv.ranges.setNode (inv.ranges.applied id) ⟨stored, ?_, resolved, before⟩ ?_
    · rintro sync ⟨⟩
      exact last ⟨_, .tokens⟩ syncing
    · rintro thread call found rfl
      have ok := inv.ranges.call thread call found
      exact ok.congr ok.running rfl rfl fun _ => rfl
  · cases taken
    exact ⟨inv.ranges.resolve syncing, inv.fresh.setNode fun kind number running low high => ⟨running, low, high⟩⟩
  · cases taken

end

theorem IdInv.step {action : Action} (inv : IdInv state) (guard : rangeGuard state action)
    (taken : state.step action = some next) : IdInv next := by
  cases action with
  | elect node branch =>
    obtain ⟨shared, elected, rfl⟩ := map_eq_some_iff.mp taken
    have follows := elect_follows elected
    exact ⟨inv.ranges.follows follows, inv.fresh.follows inv.ranges follows⟩
  | commit upto =>
    obtain ⟨shared, done, rfl⟩ := map_eq_some_iff.mp taken
    have follows := commit_follows done
    exact ⟨inv.ranges.follows follows, inv.fresh.follows inv.ranges follows⟩
  | seed uuid =>
    cases taken
    exact inv.frame ⟨rfl, rfl, rfl, fun _ => rfl⟩
  | request =>
    obtain ⟨-, rfl⟩ := ite_some_none_eq_some.mp taken
    exact inv.posted (append_posted ..) (guard.1 rfl) fun _ => rfl
  | strayRequest onto =>
    obtain ⟨shared, landed, rfl⟩ := stray_posted taken
    exact inv.posted landed (guard.1 rfl) fun _ => rfl
  | beginEntity thread node kind =>
    obtain ⟨ready, rfl⟩ := ite_some_none_eq_some.mp taken
    show IdInv (state.gotoEntity thread ⟨node, kind, .loadNext⟩ .loadNext)
    exact inv.gotoPlain ready.2 rfl
  | stepEntity thread =>
    obtain ⟨call, found, taken⟩ := bind_eq_some_iff.mp taken
    exact inv.stepEntity found guard taken
  | strayEntity thread onto => exact inv.strayEntity guard taken
  | failEntity thread =>
    dsimp only [State.step] at taken
    split at taken <;> cases taken <;> exact inv.throwEntity thread _
  | beginToken thread node kind name =>
    obtain ⟨-, rfl⟩ := ite_some_none_eq_some.mp taken
    exact inv.frame (.setTokenCall ..)
  | stepToken thread =>
    obtain ⟨call, found, taken⟩ := bind_eq_some_iff.mp taken
    rcases State.stepToken_frame taken with frame | ⟨proposes, id, frame⟩
    · exact inv.frame frame
    · exact (inv.posted (append_posted ..) (guard.1 (by simp [takesId, found, proposes]))
        fun _ => rfl).frame frame
  | strayToken thread onto =>
    obtain ⟨kind, name, id, shared, landed, frame⟩ := strayToken_frame taken
    exact (inv.posted landed (guard.1 rfl) fun _ => rfl).frame frame
  | failToken thread =>
    dsimp only [State.step] at taken
    split at taken <;> cases taken <;> exact inv.frame (.throwToken ..)
  | apply node =>
    refine ⟨inv.ranges.applyEntry guard taken, ?_⟩
    obtain ⟨-, -, -, proposal, -, -, rfl⟩ := applyEntry_cases taken
    exact inv.fresh.setNode fun kind number running low high => ⟨running, low, high⟩
  | sync node => exact inv.syncStep taken
  | crash node =>
    obtain ⟨-, rfl⟩ := ite_some_none_eq_some.mp taken
    exact ⟨inv.ranges.crash node, inv.fresh.crash node⟩
  | restart node =>
    obtain ⟨stopped, ⟨⟩⟩ := ite_none_left_eq_some.mp taken
    -- a freshly opened store has used up every range it knows
    exact ⟨inv.ranges.restart (by simpa using stopped), inv.fresh.setNode fun kind number _ low high =>
      absurd (lt_of_le_of_lt low high) (lt_irrefl _)⟩

/-- The vertex ids that `GetNextVid` has returned, the latest first. -/
def State.returnedVids (state : State) : List Nat :=
  state.returned.filterMap fun entry => if entry.1 = .vertex then some entry.2 else none

/-- In a run that meets the condition no vertex id is returned twice. -/
theorem returnedVids_nodup_of_guarded {actions : List Action} {state : State}
    (run : Runs State.step rangeGuard State.init actions state) : state.returnedVids.Nodup := by
  have inv : IdInv state := run.invariant IdInv ⟨RangeInv.init, FreshInv.init⟩ fun _ _ _ inv => inv.step
  refine inv.fresh.nodup.filterMap ?_
  rintro ⟨left, first⟩ ⟨right, second⟩ id leftId rightId
  simp only [mem_def, ite_none_right_eq_some, some.injEq] at leftId rightId
  obtain ⟨rfl, rfl⟩ := leftId
  obtain ⟨rfl, rfl⟩ := rightId
  rfl

def reserving (thread : Nat) : List Action := List.replicate 8 (.stepEntity thread)

def storing (thread : Nat) : List Action := List.replicate 4 (.stepEntity thread)

def applying (node : Nat) : List Action := .apply node :: List.replicate 4 (.sync node)

/-- Node 1 leads and reserves a range, node 2 applies the record, leads and reserves the next. -/
def successiveLeaders : List Action :=
  [.elect 1 [], .beginEntity 0 1 .vertex] ++ reserving 0 ++ [.commit 1] ++ applying 1 ++
    storing 0 ++ applying 2 ++
    [.elect 2 [⟨0, .nextEntityId .vertex 1025⟩], .beginEntity 1 2 .vertex] ++ reserving 1 ++
    [.commit 2] ++ applying 2 ++ storing 1

theorem returnedVids_nodup_successiveLeaders : ∃ state,
    execute State.step rangeGuard State.init successiveLeaders = some state ∧
    state.returnedVids = [1025, 1] ∧ state.returnedVids.Nodup := by
  have ids : (execute State.step rangeGuard State.init successiveLeaders).map
      returnedVids = some [1025, 1] := by decide
  obtain ⟨state, executed, ids⟩ := map_eq_some_iff.mp ids
  exact ⟨state, executed, ids, returnedVids_nodup_of_guarded (runs_of_execute executed)⟩

/-- As `successiveLeaders`, but node 2 leads before it has applied the record of node 1. -/
def laggingLeader : List Action :=
  [.elect 1 [], .beginEntity 0 1 .vertex] ++ reserving 0 ++ [.commit 1] ++ applying 1 ++
    storing 0 ++
    [.elect 2 [⟨0, .nextEntityId .vertex 1025⟩], .beginEntity 1 2 .vertex] ++ reserving 1 ++
    [.commit 2] ++ applying 2 ++ applying 2 ++ storing 1

/-- A leader that lags behind its log reserves the range again and returns id 1 again. -/
theorem returnedVids_laggingLeader : ∃ state,
    execute State.step anyAction State.init laggingLeader = some state ∧
    state.returnedVids = [1, 1] ∧ ¬ state.returnedVids.Nodup := by
  have ids : (execute State.step anyAction State.init laggingLeader).map
      returnedVids = some [1, 1] := by decide
  obtain ⟨state, executed, ids⟩ := map_eq_some_iff.mp ids
  exact ⟨state, executed, ids, by rw [ids]; decide⟩

end RocksGraph.IdGenerator
