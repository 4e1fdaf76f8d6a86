import RocksGraph.Replication.IdGenerator

/-! Label, relationship-type and property tokens across replicas and leaders.

The maps of a replica hold the token records that it has applied. They are
inverse to each other as long as no record repeats the name or the id of an
earlier record of its log; this is what a leader must make sure when it
proposes one. -/

set_option autoImplicit false

namespace RocksGraph.IdGenerator

open RocksGraph.Foundation List Option State SharedLog Table MetaInfo

def tokenOf (kind : TokenKind) (proposal : Proposal) : Option (Bytes × Nat) :=
  match proposal.record with
  | .token other name id => if other = kind then some (name, id) else none
  | .nextEntityId _ _ | .other => none

def Ties (kind : TokenKind) (log : List Proposal) (name : Bytes) (id : Nat) : Prop :=
  ∃ proposal ∈ log, tokenOf kind proposal = some (name, id)

def Novel (before : List Proposal) (proposal : Proposal) : Prop :=
  ∀ kind name id, tokenOf kind proposal = some (name, id) →
    ∀ otherName otherId, Ties kind before otherName otherId → otherName ≠ name ∧ otherId ≠ id

theorem tokenOf_token (uuid : Nat) (kind other : TokenKind) (name : Bytes) (id : Nat) :
    tokenOf kind ⟨uuid, .token other name id⟩ = if other = kind then some (name, id) else none := rfl

variable {kind : TokenKind} {name : Bytes} {id thread : Nat} {proposal : Proposal} {ties : Bytes → Nat → Prop}
  {tokens : Tokens} {next state : State} {shared : SharedLog Nat Proposal} {onto : Option (List Proposal)}

theorem Ties.mono {short long : List Proposal} (ties : Ties kind short name id)
    (part : short ⊆ long) : Ties kind long name id := by
  obtain ⟨proposal, mem, found⟩ := ties
  exact ⟨proposal, part mem, found⟩

theorem ties_append {log rest : List Proposal} :
    Ties kind (log ++ rest) name id ↔ Ties kind log name id ∨ Ties kind rest name id := by
  simp [Ties, or_and_right, exists_or]

theorem ties_singleton : Ties kind [proposal] name id ↔ tokenOf kind proposal = some (name, id) := by
  simp [Ties]

open SharedLog (Grown)

theorem Ties.inj {log : List Proposal} (grown : Grown Novel log) {other : Bytes} {another : Nat}
    (left : Ties kind log name id) (right : Ties kind log other another) : name = other ↔ id = another := by
  induction log using reverseRecOn with
  | nil =>
    obtain ⟨_, mem, -⟩ := left
    cases mem
  | append_singleton log last ih =>
    have before := grown.of_initial (prefix_append log [last])
    have novel := grown log [] last rfl
    rw [ties_append, ties_singleton] at left right
    rcases left with left | left <;> rcases right with right | right
    · exact ih before left right
    · obtain ⟨names, ids⟩ := novel kind other another right name id left
      exact ⟨fun same => (names same).elim, fun same => (ids same).elim⟩
    · obtain ⟨names, ids⟩ := novel kind name id left other another right
      exact ⟨fun same => (names same.symm).elim, fun same => (ids same.symm).elim⟩
    · rw [left, some.injEq, Prod.mk.injEq] at right
      exact iff_of_true right.1 right.2

structure MapsOk (ties : Bytes → Nat → Prop) (tokens : Tokens) : Prop where
  nameToId : ∀ name id, tokens.nameToId.get name = some id ↔ ties name id
  idToName : ∀ name id, tokens.idToName.get id = some name ↔ ties name id

theorem MapsOk.congr {others : Bytes → Nat → Prop} (ok : MapsOk ties tokens)
    (same : ∀ name id, ties name id ↔ others name id) : MapsOk others tokens :=
  ⟨fun name id => (ok.nameToId name id).trans (same name id),
    fun name id => (ok.idToName name id).trans (same name id)⟩

theorem MapsOk.load (ok : MapsOk ties tokens)
    (fits : ∀ other another, ties other another → (other = name ↔ another = id)) :
    MapsOk (fun other another => ties other another ∨ other = name ∧ another = id)
      (tokens.load name id) := by
  constructor
  · exact get_put_iff ok.nameToId fun another tied => (fits name another tied).mp rfl
  · intro other another
    rw [and_comm]
    exact get_put_iff (fun id name => ok.idToName name id) (fun other tied => (fits other id tied).mpr rfl)
      another other

theorem MapsOk.opened {stored : Table Bytes Nat}
    (same : ∀ name id, stored.get name = some id ↔ ties name id)
    (inj : ∀ name other id another, ties name id → ties other another → (name = other ↔ id = another)) :
    MapsOk ties (Tokens.opened stored) := by
  have members : ∀ name id, (name, id) ∈ stored.entries ↔ ties name id :=
    fun name id => (get_eq_some_iff stored).symm.trans (same name id)
  -- the fold has loaded a prefix of the entries
  have loaded : ∀ entries : List (Bytes × Nat), entries ⊆ stored.entries →
      MapsOk (fun name id => (name, id) ∈ entries) (entries.foldl
        (fun tokens entry => Tokens.load tokens entry.1 entry.2) ⟨.empty, .empty, 0⟩) := by
    intro entries part
    induction entries using reverseRecOn with
    | nil => exact ⟨by simp, by simp⟩
    | append_singleton entries last ih =>
      rw [append_subset] at part
      rw [foldl_concat]
      refine ((ih part.1).load fun name id mem => ?_).congr fun name id => ?_
      · exact inj name last.1 id last.2 ((members _ _).mp (part.1 mem))
          ((members _ _).mp (part.2 mem_cons_self))
      · rw [mem_append, mem_singleton, Prod.ext_iff]
  obtain ⟨nameToId, idToName⟩ := (loaded stored.entries (List.Subset.refl _)).congr members
  exact ⟨nameToId, idToName⟩

/-- What the memory of a node knows of the log its store has: the record at the
stage `tokens` has not reached the maps yet. -/
def knownLog (seen : List Proposal) : Option Syncing → List Proposal
  | some ⟨_, .tokens⟩ => seen.dropLast
  | _ => seen

theorem knownLog_subset (seen : List Proposal) (syncing : Option Syncing) :
    knownLog seen syncing ⊆ seen := by
  unfold knownLog
  split
  · exact dropLast_subset seen
  · exact List.Subset.refl seen

/-- A node that has written the batches of `seen` to its store. -/
structure TokenNodeOk (seen : List Proposal) (node : Node) : Prop where
  stored : ∀ kind name id, (node.metaInfo.tokens kind).get name = some id ↔ Ties kind seen name id
  syncing : ∀ sync, node.syncing = some sync → ∃ before, seen = before ++ [sync.proposal]
  resolved : ∀ uuid ∈ node.resolved, ∃ proposal ∈ knownLog seen node.syncing, proposal.uuid = uuid
  maps : node.running → ∀ kind,
    MapsOk (Ties kind (knownLog seen node.syncing)) (node.memory.tokens kind)

structure TokenCallOk (shared : SharedLog Nat Proposal) (used : List Nat) (node : Node)
    (call : TokenCall) : Prop where
  running : node.running
  fresh : ∀ id uuid, call.pc = .waiting id uuid → uuid ∈ used
  requested : ∀ id uuid, call.pc = .waiting id uuid → ∀ log ∈ shared.branches, ∀ proposal ∈ log,
    proposal.uuid = uuid → proposal.record = .token call.kind call.name id
  published : ∀ id, call.pc = .publish id →
    Ties call.kind (knownLog (shared.log.take node.applied) node.syncing) call.name id

structure TokenInv (state : State) : Prop where
  grown : state.shared.AllGrown Novel
  uuids : ∀ log ∈ state.shared.branches, ∀ proposal ∈ log, proposal.uuid ∈ state.used
  applied : ∀ id, (state.nodes id).applied ≤ state.shared.committed
  node : ∀ id, TokenNodeOk (state.shared.log.take (state.nodes id).applied) (state.nodes id)
  call : ∀ thread call, state.tokenCalls.get thread = some call →
    TokenCallOk state.shared state.used (state.nodes call.node) call

def TokenPc.proposedId : TokenPc → Option Nat
  | .propose id => some id
  | _ => none

/-- A node that has applied every token record of its log, and whose maps know
neither the name nor the id that the call proposes. -/
def State.Unknown (state : State) (log : List Proposal) (call : TokenCall) : Prop :=
  ∀ id ∈ call.pc.proposedId.toList,
    (∀ proposal ∈ log.drop (state.nodes call.node).applied, tokenOf call.kind proposal = none) ∧
    (∀ sync ∈ (state.nodes call.node).syncing.toList, sync.stage ≠ .tokens) ∧
    ((state.nodes call.node).memory.tokens call.kind).nameToId.get call.name = none ∧
    ((state.nodes call.node).memory.tokens call.kind).idToName.get id = none

def tokenOrder (state : State) : Action → Prop
  | .stepToken thread => ∀ entry ∈ state.tokenCalls.entries, entry.1 = thread →
      state.Unknown state.shared.log entry.2
  | .strayToken thread onto => ∀ entry ∈ state.tokenCalls.entries, entry.1 = thread →
      ∀ log ∈ onto, state.Unknown log entry.2
  | _ => True

instance (state : State) (log : List Proposal) (call : TokenCall) : Decidable (state.Unknown log call) :=
  inferInstanceAs (Decidable (∀ _ ∈ _, _))

instance (state : State) (action : Action) : Decidable (tokenOrder state action) := by
  unfold tokenOrder
  split <;> infer_instance

/-- A token is proposed only under a new request id, and only where it is unknown. -/
def tokenGuard (state : State) (action : Action) : Prop :=
  state.newId action ∧ tokenOrder state action

instance (state : State) (action : Action) : Decidable (tokenGuard state action) :=
  inferInstanceAs (Decidable (_ ∧ _))

theorem TokenInv.follows (inv : TokenInv state)
    (follows : state.shared.Follows shared) : TokenInv { state with shared := shared } where
  grown := inv.grown.follows follows
  uuids := follows.forall_mem inv.uuids
  applied id := le_trans (inv.applied id) follows.committed_le
  node id := by
    rw [follows.take_eq _ (inv.applied id)]
    exact inv.node id
  call thread call found := by
    have ok := inv.call thread call found
    refine ⟨ok.running, ok.fresh, fun id uuid point => follows.forall_mem (ok.requested id uuid point), ?_⟩
    rw [follows.take_eq _ (inv.applied call.node)]
    exact ok.published

section

variable (inv : TokenInv state)
include inv

theorem TokenInv.posted {record : MetaRecord}
    (landed : state.shared.Posted shared onto ⟨state.nextUuid, record⟩)
    (unused : state.nextUuid ∉ state.used)
    (novel : ∀ log ∈ onto, Novel log ⟨state.nextUuid, record⟩) : TokenInv (state.posted shared) where
  grown := AllGrown.posted landed inv.grown novel
  uuids := landed.forall_mem (fun log mem proposal found =>
    mem_cons_of_mem _ (inv.uuids log mem proposal found)) mem_cons_self
  applied id := le_trans (inv.applied id) (le_of_eq landed.committed.symm)
  node id := by
    change TokenNodeOk (shared.log.take (state.nodes id).applied) (state.nodes id)
    rw [landed.take_eq _ (inv.applied id)]
    exact inv.node id
  call thread call found := by
    have ok := inv.call thread call found
    refine ⟨ok.running, fun id uuid point => mem_cons_of_mem _ (ok.fresh id uuid point), ?_, ?_⟩
    · exact fun id uuid point => landed.forall_mem (ok.requested id uuid point) fun same : state.nextUuid = uuid =>
        absurd (same ▸ ok.fresh id uuid point) unused
    · change ∀ id, call.pc = .publish id → Ties call.kind (knownLog
        (shared.log.take (state.nodes call.node).applied) _) call.name id
      rw [landed.take_eq _ (inv.applied call.node)]
      exact ok.published

theorem TokenInv.postedOther {record : MetaRecord}
    (landed : state.shared.Posted shared onto ⟨state.nextUuid, record⟩)
    (unused : state.nextUuid ∉ state.used) (other : ∀ kind, tokenOf kind ⟨state.nextUuid, record⟩ = none) :
    TokenInv (state.posted shared) := by
  refine inv.posted landed unused fun log _ kind name id token => ?_
  rw [other kind] at token
  cases token

theorem TokenInv.setCall {call : Option TokenCall}
    (ok : ∀ some, call = .some some → TokenCallOk state.shared state.used (state.nodes some.node) some) :
    TokenInv (state.setTokenCall thread call) where
  grown := inv.grown
  uuids := inv.uuids
  applied := inv.applied
  node := inv.node
  call other another found := by
    rw [setTokenCall, get_assign] at found
    split at found
    · exact ok another found
    · exact inv.call other another found

theorem TokenInv.clearCall (thread : Nat) :
    TokenInv (state.setTokenCall thread none) := inv.setCall fun _ found => nomatch found

theorem TokenInv.setNode {node : Node}
    (within : node.applied ≤ state.shared.committed)
    (ok : TokenNodeOk (state.shared.log.take node.applied) node)
    (running : (state.nodes id).running → node.running)
    (keeps : knownLog (state.shared.log.take (state.nodes id).applied) (state.nodes id).syncing ⊆
      knownLog (state.shared.log.take node.applied) node.syncing) :
    TokenInv (state.setNode id node) where
  grown := inv.grown
  uuids := inv.uuids
  applied other := by
    rw [setNode_nodes]
    split
    · exact within
    · exact inv.applied other
  node other := by
    rw [setNode_nodes]
    split
    · exact ok
    · exact inv.node other
  call thread call found := by
    have old := inv.call thread call found
    rw [setNode_nodes]
    split
    next here =>
      refine ⟨running (here ▸ old.running), old.fresh, old.requested, fun number point => ?_⟩
      exact (old.published number point).mono (here ▸ keeps)
    · exact old

theorem TokenInv.frame (frame : TokenFrame state next) : TokenInv next := by
  obtain ⟨shared, used, calls, nodes⟩ := frame
  simp only [Node.tokens, Prod.mk.injEq] at nodes
  refine ⟨shared ▸ inv.grown, ?_, fun id => ?_, fun id => ?_, fun thread call found => ?_⟩
  · rw [shared, used]
    exact inv.uuids
  · rw [shared, (nodes id).2.1]
    exact inv.applied id
  · obtain ⟨running, applied, syncing, resolved, stored, tokens⟩ := nodes id
    obtain ⟨okStored, okSyncing, okResolved, okMaps⟩ := inv.node id
    constructor
    all_goals simp only [shared, running, applied, syncing, resolved, stored, tokens]; assumption
  · rw [calls] at found
    obtain ⟨running, applied, syncing, -⟩ := nodes call.node
    obtain ⟨okRunning, fresh, requested, published⟩ := inv.call thread call found
    constructor
    all_goals simp only [shared, used, running, applied, syncing]; assumption

end

@[simp] theorem Memory.setTokens_tokens (memory : Memory) (kind : TokenKind) (tokens : Tokens)
    (other : TokenKind) :
    (memory.setTokens kind tokens).tokens other = if other = kind then tokens else memory.tokens other :=
  Function.update_apply ..

section

variable (inv : TokenInv state)
include inv

theorem TokenInv.setTokens (ok : (state.nodes id).running → MapsOk (Ties kind (knownLog
      (state.shared.log.take (state.nodes id).applied) (state.nodes id).syncing)) tokens) :
    TokenInv (state.setTokens id kind tokens) := by
  obtain ⟨stored, syncing, resolved, maps⟩ := inv.node id
  refine inv.setNode (inv.applied id) ⟨stored, syncing, resolved, fun running other => ?_⟩
    (fun running => running) (List.Subset.refl _)
  rw [Memory.setTokens_tokens]
  split
  next same =>
    exact same ▸ ok running
  · exact maps running other

theorem TokenInv.setCreateOwner (id : Nat) (kind : TokenKind)
    (owner : Option Nat) : TokenInv (state.setCreateOwner id kind owner) :=
  inv.frame (.setNode rfl rfl)

theorem TokenInv.throwToken (thread : Nat) (call : TokenCall) :
    TokenInv (state.throwToken thread call) :=
  (inv.setCreateOwner call.node call.kind none).clearCall thread

theorem TokenInv.gotoPlain {call : TokenCall} {pc : TokenPc}
    (running : (state.nodes call.node).running) (waits : ∀ id uuid, pc ≠ .waiting id uuid)
    (publishes : ∀ id, pc ≠ .publish id) : TokenInv (state.gotoToken thread call pc) := by
  refine inv.setCall fun _ same => ?_
  cases same
  exact ⟨running, fun id uuid point => (waits id uuid point).elim,
    fun id uuid point => (waits id uuid point).elim, fun id point => (publishes id point).elim⟩

/-! ## The steps of a call -/

theorem TokenInv.novel_of_unknown {log : List Proposal} {node tokenId : Nat}
    (running : (state.nodes node).running)
    (part : state.shared.log.take (state.nodes node).applied <+: log)
    (unknown : state.Unknown log ⟨node, kind, name, .propose tokenId⟩) :
    Novel log ⟨state.nextUuid, .token kind name tokenId⟩ := by
  obtain ⟨behind, idle, noName, noId⟩ := unknown tokenId mem_cons_self
  have known : knownLog (state.shared.log.take (state.nodes node).applied)
      (state.nodes node).syncing = state.shared.log.take (state.nodes node).applied := by
    unfold knownLog
    split
    next syncing =>
      exact absurd rfl (idle _ (by rw [syncing]; exact mem_cons_self))
    · rfl
  have maps := (inv.node node).maps running kind
  have within := le_trans (inv.applied node) state.shared.bounded
  have seen := prefix_iff_eq_take.mp part
  rw [length_take, min_eq_left within] at seen
  rw [known, seen] at maps
  intro other otherName otherId token wantedName wantedId ties
  rw [tokenOf_token] at token
  split at token
  next same =>
    subst same
    cases token
    rw [← take_append_drop (state.nodes node).applied log, ties_append] at ties
    rcases ties with ties | ⟨proposal, late, token⟩
    · constructor
      · rintro rfl
        have := (maps.nameToId _ _).mpr ties
        simp [noName] at this
      · rintro rfl
        have := (maps.idToName _ _).mpr ties
        simp [noId] at this
    · rw [behind proposal late] at token
      cases token
  · cases token

theorem TokenInv.proposeToken {node tokenId : Nat}
    (found : state.tokenCalls.get thread = some ⟨node, kind, name, .propose tokenId⟩)
    (unused : state.nextUuid ∉ state.used)
    (landed : state.shared.Posted shared onto ⟨state.nextUuid, .token kind name tokenId⟩)
    (part : ∀ log ∈ onto, state.shared.log.take (state.nodes node).applied <+: log)
    (unknown : ∀ log ∈ onto, state.Unknown log ⟨node, kind, name, .propose tokenId⟩) :
    TokenInv ((state.posted shared).setTokenCall thread
      (some ⟨node, kind, name, .waiting tokenId state.nextUuid⟩)) := by
  have running : (state.nodes node).running := (inv.call thread _ found).running
  have posted : TokenInv (state.posted shared) := inv.posted landed unused fun log given =>
    inv.novel_of_unknown running (part log given) (unknown log given)
  refine posted.setCall fun _ same => ?_
  cases same
  refine ⟨running, ?_, ?_, fun _ point => nomatch point⟩
  · rintro _ _ ⟨⟩
    exact mem_cons_self
  · rintro _ _ ⟨⟩
    exact landed.forall_mem (fun log mem proposal inLog same =>
      absurd (same ▸ inv.uuids log mem proposal inLog) unused) fun _ => rfl

theorem TokenInv.strayToken (guard : tokenGuard state (.strayToken thread onto))
    (taken : state.step (.strayToken thread onto) = some next) : TokenInv next := by
  dsimp only [State.step] at taken
  split at taken
  next node kind name tokenId found =>
    obtain ⟨part, taken⟩ := ite_none_right_eq_some.mp taken
    obtain ⟨_, strayed, rfl⟩ := map_eq_some_iff.mp taken
    obtain ⟨shared, landed, rfl⟩ := stray_posted strayed
    exact inv.proposeToken found (guard.1 rfl) landed part
      (guard.2 _ ((get_eq_some_iff _).mp found) rfl)
  · cases taken

theorem TokenInv.stepToken {call : TokenCall}
    (found : state.tokenCalls.get thread = some call) (guard : tokenGuard state (.stepToken thread))
    (taken : state.stepToken thread call = some next) : TokenInv next := by
  have ok := inv.call thread call found
  obtain ⟨node, kind, name, pc⟩ := call
  have running : (state.nodes node).running := ok.running
  dsimp only [State.stepToken] at taken
  cases pc with
  | find =>
    dsimp only at taken
    split at taken <;> cases taken
    · exact inv.clearCall thread
    · exact inv.gotoPlain running (by simp) (by simp)
  | lockCreate =>
    dsimp only at taken
    split at taken <;> cases taken
    refine (inv.setCreateOwner node kind (some thread)).gotoPlain ?_ (by simp) (by simp)
    simpa [State.setCreateOwner] using running
  | findAgain =>
    dsimp only at taken
    split at taken <;> cases taken
    · exact inv.throwToken thread _
    · exact inv.gotoPlain running (by simp) (by simp)
  | draw =>
    cases taken
    have maps := (inv.node node).maps running kind
    have drawn : TokenInv (state.setTokens node kind { (state.nodes node).memory.tokens kind with
        nextId := (((state.nodes node).memory.tokens kind).nextId + 1) % 2 ^ 32 }) :=
      inv.setTokens fun _ => ⟨maps.nameToId, maps.idToName⟩
    exact drawn.gotoPlain (by simpa [State.setTokens] using running) (by simp) (by simp)
  | propose tokenId =>
    dsimp only at taken
    split at taken <;> cases taken
    · refine inv.proposeToken found (guard.1 (by simp [takesId, found, TokenPc.proposes]))
        (append_posted ..) ?_ ?_
      · rintro _ ⟨⟩
        exact take_prefix _ _
      · rintro _ ⟨⟩
        exact guard.2 _ ((get_eq_some_iff _).mp found) rfl
    · exact inv.throwToken thread _
  | waiting tokenId uuid =>
    dsimp only at taken
    split at taken <;> cases taken
    rename_i resolved
    refine inv.setCall fun _ same => ?_
    cases same
    refine ⟨running, (fun _ _ point => nomatch point), (fun _ _ point => nomatch point), ?_⟩
    rintro _ ⟨⟩
    obtain ⟨proposal, mem, same⟩ := (inv.node node).resolved uuid resolved
    have inLog := mem_of_mem_take (knownLog_subset _ _ mem)
    refine ⟨proposal, mem, ?_⟩
    rw [tokenOf, ok.requested tokenId uuid rfl _ mem_cons_self proposal inLog same]
    exact if_pos rfl
  | publish tokenId =>
    cases taken
    have ties := ok.published tokenId rfl
    have grown := inv.grown.log.take (state.nodes node).applied
    have inj : ∀ other another, Ties kind (knownLog (state.shared.log.take
        (state.nodes node).applied) (state.nodes node).syncing) other another →
        (other = name ↔ another = tokenId) := fun other another tied =>
      Ties.inj grown (tied.mono (knownLog_subset _ _)) (ties.mono (knownLog_subset _ _))
    refine (TokenInv.setCreateOwner (inv.setTokens fun _ => ?_) node kind none).clearCall thread
    refine (((inv.node node).maps running kind).load inj).congr fun other another => ?_
    constructor
    · rintro (tied | ⟨rfl, rfl⟩)
      · exact tied
      · exact ties
    · exact .inl

end

theorem MetaInfo.write_tokens (metaInfo : MetaInfo) (proposal : Proposal) (kind : TokenKind)
    (name : Bytes) (id : Nat) : ((metaInfo.write proposal.record).tokens kind).get name = some id ↔
      tokenOf kind proposal = some (name, id) ∨
      (∀ other, tokenOf kind proposal ≠ some (name, other)) ∧
        (metaInfo.tokens kind).get name = some id := by
  obtain ⟨uuid, record⟩ := proposal
  cases record with
  | nextEntityId | other => simp [write, tokenOf]
  | token other wanted tokenId =>
    rw [tokenOf_token]
    by_cases same : other = kind
    · subst same
      by_cases names : name = wanted
      · subst names
        simp [write]
      · simp [write, names, Ne.symm names]
    · simp [write, same, Ne.symm same]

section

variable (inv : TokenInv state)
include inv

theorem TokenInv.applyEntry (taken : state.applyEntry id = some next) : TokenInv next := by
  obtain ⟨running, idle, behind, proposal, -, grows, rfl⟩ := applyEntry_cases taken
  have novel := inv.grown.log.take _ _ [] proposal grows
  obtain ⟨stored, -, resolved, maps⟩ := inv.node id
  rw [idle] at resolved maps
  -- the maps have not seen the record yet, or do not care about it
  have known : ∃ rest, knownLog (state.shared.log.take ((state.nodes id).applied + 1))
      (some ⟨proposal, proposal.record.firstStage⟩) =
      state.shared.log.take (state.nodes id).applied ++ rest ∧
      ∀ other ∈ rest, ∀ kind, tokenOf kind other = none := by
    obtain ⟨uuid, record⟩ := proposal
    cases record with
    | nextEntityId | other => exact ⟨[_], grows, by simp [tokenOf]⟩
    | token kind name tokenId =>
      refine ⟨[], ?_, by simp⟩
      rw [grows]
      exact (dropLast_concat ..).trans (append_nil _).symm
  obtain ⟨rest, same, others⟩ := known
  refine inv.setNode behind ⟨fun kind name number => ?_, ?_, ?_, fun _ kind => ?_⟩
    (fun running => running) ?_
  · rw [write_tokens, grows, ties_append, ties_singleton, stored]
    constructor
    · rintro (token | ⟨-, ties⟩)
      · exact .inr token
      · exact .inl ties
    · rintro (ties | token)
      · exact .inr ⟨fun other token => (novel kind name other token name number ties).1 rfl, ties⟩
      · exact .inl token
  · rintro sync ⟨⟩
    exact ⟨_, grows⟩
  · intro uuid mem
    obtain ⟨earlier, seen, equal⟩ := resolved uuid mem
    exact ⟨earlier, same ▸ mem_append_left _ seen, equal⟩
  · refine (maps running kind).congr fun name number => ?_
    rw [same, ties_append]
    refine ⟨.inl, fun ties => ties.elim (fun ties => ties) ?_⟩
    rintro ⟨other, mem, token⟩
    rw [others other mem kind] at token
    cases token
  · rw [idle, same]
    exact subset_append_left _ _

theorem TokenInv.syncRange {old new : SyncStage} {memory : Memory}
    (syncing : (state.nodes id).syncing = some ⟨proposal, old⟩) (before : old ≠ .tokens)
    (after : new ≠ .tokens) (tokens : memory.tokens = (state.nodes id).memory.tokens) :
    TokenInv (state.setNode id { state.nodes id with
      memory := memory, syncing := some ⟨proposal, new⟩ }) := by
  have known : ∀ {stage : SyncStage} (seen : List Proposal), stage ≠ .tokens →
      knownLog seen (some ⟨proposal, stage⟩) = seen := by
    intro stage seen other
    cases stage <;> first | rfl | exact (other rfl).elim
  obtain ⟨stored, last, resolved, maps⟩ := inv.node id
  rw [syncing, known _ before] at resolved maps
  refine inv.setNode (inv.applied id) ⟨stored, ?_, ?_, ?_⟩ (fun running => running) ?_
  · rintro sync ⟨⟩
    exact last ⟨_, old⟩ syncing
  · rw [known _ after]
    exact resolved
  · rw [known _ after, tokens]
    exact maps
  · rw [syncing, known _ before, known _ after]
    exact List.Subset.refl _

theorem TokenInv.syncToken {uuid tokenId : Nat}
    (syncing : (state.nodes id).syncing = some ⟨⟨uuid, .token kind name tokenId⟩, .tokens⟩) :
    TokenInv (state.setNode id { state.nodes id with
      memory := (state.nodes id).memory.setTokens kind
        (((state.nodes id).memory.tokens kind).apply name tokenId)
      syncing := some ⟨⟨uuid, .token kind name tokenId⟩, .done⟩ }) := by
  obtain ⟨stored, last, resolved, maps⟩ := inv.node id
  obtain ⟨earlier, seen⟩ := last _ syncing
  have old : knownLog (state.shared.log.take (state.nodes id).applied)
      (state.nodes id).syncing = earlier := by
    rw [syncing, seen]
    exact dropLast_concat ..
  have novel := inv.grown.log.take _ earlier [] _ seen
  rw [old] at resolved maps
  refine inv.setNode (inv.applied id) ⟨stored, ?_, ?_, fun running other => ?_⟩
    (fun running => running) ?_
  · rintro sync ⟨⟩
    exact ⟨earlier, seen⟩
  · intro number mem
    obtain ⟨proposal, inside, same⟩ := resolved number mem
    exact ⟨proposal, seen ▸ mem_append_left _ inside, same⟩
  · rw [Memory.setTokens_tokens]
    change MapsOk (Ties other (state.shared.log.take (state.nodes id).applied)) _
    split
    next same =>
      subst same
      have loaded := (maps running other).load fun wanted number tied => by
        obtain ⟨names, ids⟩ := novel other name tokenId (if_pos rfl) wanted number tied
        exact iff_of_false names ids
      refine MapsOk.congr ⟨loaded.nameToId, loaded.idToName⟩ fun wanted number => ?_
      · rw [seen, ties_append, ties_singleton, tokenOf_token, if_pos rfl, some.injEq,
          Prod.mk.injEq, eq_comm (a := name), eq_comm (a := tokenId)]
    next differs =>
      refine (maps running other).congr fun wanted number => ?_
      rw [seen, ties_append, ties_singleton, tokenOf_token, if_neg (Ne.symm differs)]
      simp
  · rw [old]
    exact seen ▸ subset_append_left _ _

theorem TokenInv.resolve
    (syncing : (state.nodes id).syncing = some ⟨proposal, .done⟩) :
    TokenInv (state.setNode id { state.nodes id with
      syncing := none, resolved := proposal.uuid :: (state.nodes id).resolved }) := by
  obtain ⟨stored, last, resolved, maps⟩ := inv.node id
  obtain ⟨earlier, seen⟩ := last _ syncing
  rw [syncing] at resolved maps
  refine inv.setNode (inv.applied id) ⟨stored, (fun _ sync => nomatch sync), ?_, maps⟩
    (fun running => running) (by rw [syncing]; exact List.Subset.refl _)
  intro uuid mem
  rcases mem_cons.mp mem with rfl | mem
  · exact ⟨proposal, seen ▸ mem_append_right _ mem_cons_self, rfl⟩
  · exact resolved uuid mem

theorem TokenInv.syncStep (taken : state.syncStep id = some next) : TokenInv next := by
  dsimp only [State.syncStep] at taken
  split at taken
  · cases taken
  rename_i uuid record stage syncing
  split at taken
  · split at taken <;> cases taken
    exact inv.syncRange syncing (by simp) (by simp) rfl
  · cases taken
    exact inv.syncRange syncing (by simp) (by simp) rfl
  · cases taken
    exact inv.syncRange syncing (by simp) (by simp) rfl
  · cases taken
    exact inv.syncToken syncing
  · cases taken
    exact inv.resolve syncing
  · cases taken

/-! ## Every step -/

theorem TokenInv.crash (id : Nat) :
    TokenInv (state.crash id) where
  grown := inv.grown
  uuids := inv.uuids
  applied other := by
    rw [State.crash_applied]
    exact inv.applied other
  node other := by
    by_cases same : other = id
    · subst same
      simp only [State.crash, Function.update_self]
      exact ⟨(inv.node other).stored, by simp [Node.fresh], by simp [Node.fresh], by simp⟩
    · simpa [State.crash, same] using inv.node other
  call thread call found := by
    simp only [State.crash, Table.get_filter, filter_eq_some_iff, bne_iff_ne] at found
    simpa [State.crash, found.2] using inv.call thread call found.1

theorem TokenInv.restart (stopped : (state.nodes id).running = false) :
    TokenInv (state.restart id) := by
  obtain ⟨stored, -, -, -⟩ := inv.node id
  refine inv.setNode (inv.applied id) ⟨stored, (fun _ sync => nomatch sync),
    (fun _ mem => nomatch mem), fun _ kind => ?_⟩ (by simp [stopped]) (knownLog_subset _ _)
  exact MapsOk.opened (stored kind) fun _ _ _ _ => Ties.inj (inv.grown.log.take _)

end

theorem TokenInv.init : TokenInv State.init where
  grown := .empty
  uuids log mem proposal found := by
    rw [mem_singleton.mp mem] at found
    cases found
  applied _ := le_rfl
  node _ := by
    refine ⟨fun _ _ _ => ?_, (fun _ sync => nomatch sync), (fun _ mem => nomatch mem),
      fun _ _ => ⟨fun _ _ => ?_, fun _ _ => ?_⟩⟩ <;>
      simp [State.init, Node.fresh, MetaInfo.empty, Memory.opened, Tokens.opened, Table.empty,
        Table.get, Table.find, knownLog, Ties]
  call _ _ found := nomatch found

theorem TokenInv.step {action : Action} (inv : TokenInv state) (guard : tokenGuard state action)
    (taken : state.step action = some next) : TokenInv next := by
  cases action with
  | elect node branch =>
    obtain ⟨shared, elected, rfl⟩ := map_eq_some_iff.mp taken
    exact inv.follows (elect_follows elected)
  | commit upto =>
    obtain ⟨shared, done, rfl⟩ := map_eq_some_iff.mp taken
    exact inv.follows (commit_follows done)
  | seed uuid =>
    cases taken
    exact inv.frame ⟨rfl, rfl, rfl, fun _ => rfl⟩
  | request =>
    obtain ⟨-, rfl⟩ := ite_some_none_eq_some.mp taken
    exact inv.postedOther (append_posted ..) (guard.1 rfl) fun _ => rfl
  | strayRequest onto =>
    obtain ⟨shared, landed, rfl⟩ := stray_posted taken
    exact inv.postedOther landed (guard.1 rfl) fun _ => rfl
  | beginEntity thread node kind =>
    obtain ⟨-, rfl⟩ := ite_some_none_eq_some.mp taken
    exact inv.frame (.setEntityCall ..)
  | stepEntity thread =>
    obtain ⟨call, found, taken⟩ := bind_eq_some_iff.mp taken
    rcases State.stepEntity_frame taken with frame | ⟨proposes, last, frame⟩
    · exact inv.frame frame
    · exact (inv.postedOther (append_posted ..) (guard.1 (by simp [takesId, found, proposes]))
        fun _ => rfl).frame frame
  | strayEntity thread onto =>
    obtain ⟨kind, last, shared, landed, frame⟩ := strayEntity_frame taken
    exact (inv.postedOther landed (guard.1 rfl) fun _ => rfl).frame frame
  | failEntity thread =>
    dsimp only [State.step] at taken
    split at taken <;> cases taken <;> exact inv.frame (.throwEntity ..)
  | beginToken thread node kind name =>
    obtain ⟨ready, rfl⟩ := ite_some_none_eq_some.mp taken
    refine inv.setCall fun _ same => ?_
    cases same
    exact ⟨ready.2.1, (fun _ _ point => nomatch point), (fun _ _ point => nomatch point),
      (fun _ point => nomatch point)⟩
  | stepToken thread =>
    obtain ⟨call, found, taken⟩ := bind_eq_some_iff.mp taken
    exact inv.stepToken found guard taken
  | strayToken thread onto => exact inv.strayToken guard taken
  | failToken thread =>
    dsimp only [State.step] at taken
    split at taken <;> cases taken <;> exact inv.throwToken thread _
  | apply node => exact inv.applyEntry taken
  | sync node => exact inv.syncStep taken
  | crash node =>
    obtain ⟨-, rfl⟩ := ite_some_none_eq_some.mp taken
    exact inv.crash node
  | restart node =>
    obtain ⟨notRunning, ⟨⟩⟩ := ite_none_left_eq_some.mp taken
    exact inv.restart (by simpa using notRunning)

/-- What a running replica maps a name to; `GetLid`, `GetTid` and `GetPid` read it. -/
def State.idOf (state : State) (node : Nat) (kind : TokenKind) (name : Bytes) : Option Nat :=
  if (state.nodes node).running then ((state.nodes node).memory.tokens kind).nameToId.get name
  else none

/-- What a running replica maps an id to; `GetVertexLabelName`, `GetEdgeTypeName` and
`GetPropertyName` read it. -/
def State.nameOf (state : State) (node : Nat) (kind : TokenKind) (id : Nat) : Option Bytes :=
  if (state.nodes node).running then ((state.nodes node).memory.tokens kind).idToName.get id
  else none

/-- The token maps of a replica at the end of a run, against any earlier state of it. -/
structure Bijection (earlier state : State) (node : Nat) (kind : TokenKind) : Prop where
  distinct : ∀ name other id, state.idOf node kind name = some id →
    state.idOf node kind other = some id → name = other
  stable : ∀ name old new, earlier.idOf node kind name = some old →
    state.idOf node kind name = some new → old = new
  inverse : ∀ name id, state.idOf node kind name = some id ↔ state.nameOf node kind id = some name

theorem TokenInv.idOf_ties (inv : TokenInv state) {node : Nat}
    (found : state.idOf node kind name = some id) : Ties kind state.shared.committedLog name id := by
  unfold idOf at found
  split at found
  next running =>
    have ties := (((inv.node node).maps running kind).nameToId name id).mp found
    exact ties.mono fun _ mem =>
      mem_committedLog_of_take (inv.applied node) (knownLog_subset _ _ mem)
  · cases found

theorem State.step_committed {action : Action} (taken : state.step action = some next) :
    state.shared.committedLog ⊆ next.shared.committedLog := by
  have same : ∀ {other : State}, other.shared = state.shared →
      state.shared.committedLog ⊆ other.shared.committedLog := fun equal =>
    equal ▸ List.Subset.refl _
  have posted : ∀ {other : State} {shared : SharedLog Nat Proposal} {proposal : Proposal}
      {onto : Option (List Proposal)}, state.shared.Posted shared onto proposal →
      other.shared = shared → state.shared.committedLog ⊆ other.shared.committedLog := by
    intro other shared proposal onto landed equal
    rw [equal, landed.committedLog]
    exact List.Subset.refl _
  cases action with
  | elect node branch =>
    obtain ⟨shared, elected, rfl⟩ := map_eq_some_iff.mp taken
    exact fun _ mem => (elect_follows elected).mem_committedLog mem
  | commit upto =>
    obtain ⟨shared, done, rfl⟩ := map_eq_some_iff.mp taken
    exact fun _ mem => (commit_follows done).mem_committedLog mem
  | stepEntity thread =>
    obtain ⟨call, -, taken⟩ := bind_eq_some_iff.mp taken
    rcases stepEntity_frame taken with frame | ⟨-, last, frame⟩
    · exact same frame.shared
    · exact posted (append_posted ..) frame.shared
  | stepToken thread =>
    obtain ⟨call, -, taken⟩ := bind_eq_some_iff.mp taken
    rcases stepToken_frame taken with frame | ⟨-, id, frame⟩
    · exact same frame.shared
    · exact posted (append_posted ..) frame.shared
  | strayEntity thread onto =>
    obtain ⟨_, _, _, landed, frame⟩ := strayEntity_frame taken
    exact posted landed frame.shared
  | strayToken thread onto =>
    obtain ⟨_, _, _, _, landed, frame⟩ := strayToken_frame taken
    exact posted landed frame.shared
  | strayRequest onto =>
    obtain ⟨_, landed, rfl⟩ := stray_posted taken
    exact posted landed rfl
  | request =>
    obtain ⟨-, rfl⟩ := ite_some_none_eq_some.mp taken
    exact posted (append_posted ..) rfl
  | seed uuid =>
    cases taken
    exact same rfl
  | beginEntity | failEntity | beginToken | failToken | crash | restart =>
    dsimp only [State.step] at taken
    split at taken <;> cases taken <;> exact same rfl
  | sync node =>
    dsimp only [State.step, syncStep] at taken
    repeat' split at taken
    all_goals cases taken
    all_goals exact same rfl
  | apply node =>
    obtain ⟨-, -, -, proposal, -, -, rfl⟩ := applyEntry_cases taken
    exact same rfl

theorem tokenInv_of_runs {actions : List Action} {first last : State} (inv : TokenInv first)
    (run : Runs State.step tokenGuard first actions last) : TokenInv last :=
  run.invariant TokenInv inv fun _ _ _ inv guard taken => inv.step guard taken

/-- In a run that meets the condition the tokens of every replica stay a bijection. -/
theorem tokens_bijection_of_guarded {before after : List Action} {earlier state : State}
    (first : Runs State.step tokenGuard State.init before earlier)
    (rest : Runs State.step tokenGuard earlier after state) (node : Nat) (kind : TokenKind) :
    Bijection earlier state node kind := by
  have old := tokenInv_of_runs TokenInv.init first
  have inv := tokenInv_of_runs old rest
  have kept : earlier.shared.committedLog ⊆ state.shared.committedLog :=
    rest.relates TokenInv (fun one two => one.shared.committedLog ⊆ two.shared.committedLog) old
      (fun _ _ _ inv guard taken => inv.step guard taken) (fun _ => List.Subset.refl _)
      (fun left right => List.Subset.trans left right)
      (fun _ _ _ _ _ taken => step_committed taken)
  have grown := inv.grown.log.of_initial state.shared.committedLog_initial
  constructor
  · intro name other id left right
    exact (Ties.inj grown (inv.idOf_ties left) (inv.idOf_ties right)).mpr rfl
  · intro name one two left right
    exact (Ties.inj grown ((old.idOf_ties left).mono kept) (inv.idOf_ties right)).mp rfl
  · intro name id
    unfold idOf nameOf
    split
    next running =>
      have maps := (inv.node node).maps running kind
      rw [maps.nameToId, maps.idToName]
    · simp

def creating (thread : Nat) : List Action := List.replicate 5 (.stepToken thread)

def publishing (thread : Nat) : List Action := List.replicate 2 (.stepToken thread)

def applyingToken (node : Nat) : List Action := .apply node :: List.replicate 2 (.sync node)

/-- Node 1 leads and creates label `a`, node 2 applies it. -/
def firstLabel : List Action :=
  [.elect 1 [], .beginToken 0 1 .vertexLabel [97]] ++ creating 0 ++ [.commit 1] ++
    applyingToken 1 ++ publishing 0 ++ applyingToken 2

/-- Node 2 leads and creates label `b`. -/
def secondLabel : List Action :=
  [.elect 2 [⟨0, .token .vertexLabel [97] 1⟩], .beginToken 1 2 .vertexLabel [98]] ++ creating 1 ++
    [.commit 2] ++ applyingToken 2 ++ publishing 1

theorem tokens_bijection_successiveLeaders : ∃ earlier state,
    execute State.step tokenGuard State.init firstLabel = some earlier ∧
    execute State.step tokenGuard earlier secondLabel = some state ∧
    state.idOf 2 .vertexLabel [97] = some 1 ∧ state.idOf 2 .vertexLabel [98] = some 2 ∧
    Bijection earlier state 2 .vertexLabel := by
  have ids : ((execute State.step tokenGuard State.init firstLabel).bind fun earlier =>
      (execute State.step tokenGuard earlier secondLabel).map fun state =>
        (state.idOf 2 .vertexLabel [97], state.idOf 2 .vertexLabel [98])) =
      some (some 1, some 2) := by decide
  obtain ⟨earlier, first, ids⟩ := bind_eq_some_iff.mp ids
  obtain ⟨state, rest, ids⟩ := map_eq_some_iff.mp ids
  obtain ⟨left, right⟩ := Prod.mk.inj ids
  exact ⟨earlier, state, first, rest, left, right,
    tokens_bijection_of_guarded (runs_of_execute first) (runs_of_execute rest) 2 .vertexLabel⟩

/-- Two replicas never disagree about a token. -/
theorem tokens_agree_of_guarded {actions : List Action} (run : Runs State.step tokenGuard State.init actions state)
    {one two id other : Nat} {name another : Bytes} (left : state.idOf one kind name = some id)
    (right : state.idOf two kind another = some other) : name = another ↔ id = other := by
  have inv := tokenInv_of_runs TokenInv.init run
  have grown := inv.grown.log.of_initial state.shared.committedLog_initial
  exact Ties.inj grown (inv.idOf_ties left) (inv.idOf_ties right)

theorem tokens_agree_firstLabel : ∃ state, Runs State.step tokenGuard State.init firstLabel state ∧
    ∃ id, state.idOf 2 .vertexLabel [97] = some id ∧ (([97] : Bytes) = [97] ↔ 1 = id) := by
  have ids : (execute State.step tokenGuard State.init firstLabel).map
      (fun state => (state.idOf 1 .vertexLabel [97], state.idOf 2 .vertexLabel [97])) = some (some 1, some 1) := by decide
  obtain ⟨state, executed, ids⟩ := map_eq_some_iff.mp ids
  obtain ⟨left, right⟩ := Prod.mk.inj ids
  have run := runs_of_execute executed
  exact ⟨state, run, 1, right, tokens_agree_of_guarded run left right⟩

/-- Node 2 leads and creates label `b` before it has applied label `a` of node 1. -/
def laggingLabel : List Action :=
  [.elect 1 [], .beginToken 0 1 .vertexLabel [97]] ++ creating 0 ++ [.commit 1] ++
    applyingToken 1 ++ publishing 0 ++
    [.elect 2 [⟨0, .token .vertexLabel [97] 1⟩], .beginToken 1 2 .vertexLabel [98]] ++ creating 1 ++
    [.commit 2] ++ applyingToken 2 ++ applyingToken 2 ++ publishing 1

/-- The proposal of label `a` times out, is tried again, and both proposals commit. -/
def retriedLabel : List Action :=
  [.elect 1 [], .beginToken 0 1 .vertexLabel [97]] ++ creating 0 ++
    [.failToken 0, .beginToken 1 1 .vertexLabel [97]] ++ creating 1 ++ [.commit 2] ++
    applyingToken 1

/-- A lagging leader gives two labels one id; a retry gives one label two ids. -/
theorem tokens_collide :
    (∃ state, execute State.step anyAction State.init laggingLabel = some state ∧
      ¬ Bijection state state 2 .vertexLabel) ∧
    ∃ earlier state, execute State.step anyAction State.init retriedLabel = some earlier ∧
      execute State.step anyAction earlier (applyingToken 1) = some state ∧
      ¬ Bijection earlier state 1 .vertexLabel := by
  constructor
  · have ids : (execute State.step anyAction State.init laggingLabel).map (fun state =>
        (state.idOf 2 .vertexLabel [97], state.idOf 2 .vertexLabel [98])) =
        some (some 1, some 1) := by decide
    obtain ⟨state, executed, ids⟩ := map_eq_some_iff.mp ids
    obtain ⟨left, right⟩ := Prod.mk.inj ids
    exact ⟨state, executed, fun bijection => absurd (bijection.distinct _ _ _ left right) (by decide)⟩
  · have ids : ((execute State.step anyAction State.init retriedLabel).bind fun earlier =>
        (execute State.step anyAction earlier (applyingToken 1)).map fun state =>
          (earlier.idOf 1 .vertexLabel [97], state.idOf 1 .vertexLabel [97])) =
        some (some 1, some 2) := by decide
    obtain ⟨earlier, first, ids⟩ := bind_eq_some_iff.mp ids
    obtain ⟨state, rest, ids⟩ := map_eq_some_iff.mp ids
    obtain ⟨old, new⟩ := Prod.mk.inj ids
    exact ⟨earlier, state, first, rest, fun bijection =>
      absurd (bijection.stable _ _ _ old new) (by decide)⟩

end RocksGraph.IdGenerator
