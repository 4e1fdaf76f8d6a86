import RocksGraph.Foundation.Arrange
import RocksGraph.Replication.Proposals

/-! The backpressure counters of `RaftDriver` (`raft_driver.cc`).

A proposal that `Propose` accepts is counted with its size until its context is
released: when the raft refuses it, its caller gives up, the leadership is lost,
the driver stops or its entry is applied. Callers, the raft thread and the apply
thread meet at `promise_mutex_`, so an action here is one critical section. A
context is known by its number, in the order in which they were accepted. -/

set_option autoImplicit false

namespace RocksGraph.ProposalAccounting

open Foundation Proposals List Option Generator Table

/-- The limits of `RaftConfig`, of type `uint64_t`. -/
structure Limits where
  maxProposalBytes : Nat
  maxPendingProposals : Nat
  maxPendingProposalBytes : Nat
  proposalsFit : maxPendingProposals < 2 ^ 64
  bytesFit : maxPendingProposalBytes < 2 ^ 64

def Limits.small : Limits := ⟨8, 4, 10, by decide, by decide⟩

/-- `PromiseContext` without its promises. The code does not have `releases`: it
counts how often the context was taken out of the counters. -/
structure Context where
  id : Nat
  proposalBytes : Nat
  proposalAccounted : Bool
  releases : Nat
  deriving DecidableEq, Repr

def Context.release (context : Context) : Context :=
  if context.proposalAccounted then
    { context with proposalAccounted := false, releases := context.releases + 1 }
  else context

@[simp] theorem Context.accounted_release (context : Context) :
    context.release.proposalAccounted = false := by
  unfold release
  split <;> simp_all

structure Books where
  contexts : List Context
  pendingProposals : Nat
  pendingProposalBytes : Nat
  deriving DecidableEq, Repr

namespace Books

def empty : Books := ⟨[], 0, 0⟩

def accounted (books : Books) : List Context := books.contexts.filter Context.proposalAccounted

def admits (books : Books) (limits : Limits) (proposalBytes : Nat) : Bool :=
  if limits.maxProposalBytes < proposalBytes then false
  else if limits.maxPendingProposals ≤ books.pendingProposals then false
  else if limits.maxPendingProposalBytes < books.pendingProposalBytes ∨
      limits.maxPendingProposalBytes - books.pendingProposalBytes < proposalBytes then false
  else true

def register (books : Books) (uuid proposalBytes : Nat) : Books where
  contexts := books.contexts ++ [⟨uuid, proposalBytes, true, 0⟩]
  pendingProposals := (books.pendingProposals + 1) % 2 ^ 64
  pendingProposalBytes := (books.pendingProposalBytes + proposalBytes) % 2 ^ 64

def release (books : Books) (number : Nat) : Books :=
  match books.contexts[number]? with
  | none => books
  | some context =>
    if context.proposalAccounted then {
      contexts := books.contexts.set number context.release
      pendingProposals :=
        if 0 < books.pendingProposals then books.pendingProposals - 1 else books.pendingProposals
      pendingProposalBytes :=
        if context.proposalBytes ≤ books.pendingProposalBytes then
          books.pendingProposalBytes - context.proposalBytes
        else 0 }
    else books

end Books

/-- `drawn` are ids whose `Propose` is still to come, `pending` is
`pending_promise_`, `posted` are the proposals that wait for the raft thread with
their id and context, and `operations` the contexts of the entries that wait for
the apply thread. -/
structure Driver where
  limits : Limits
  generator : Generator
  stopped : Bool
  drawn : List Nat
  books : Books
  pending : Table Nat Nat
  posted : List (Nat × Nat)
  operations : List (Option Nat)

/-- What the threads of a driver do. `timeout` is a caller that gives its context
up, and `handOut` a committed entry with the request id it carries. -/
inductive Action where
  | draw
  | propose (uuid proposalBytes : Nat)
  | stepPosted (refused : Bool)
  | timeout (context : Nat)
  | rejectPendingPromises
  | stop
  | handOut (uuid : Option Nat)
  | applyNext
  deriving DecidableEq, Repr

namespace Driver

def start (limits : Limits) (node time : Nat) : Driver :=
  ⟨limits, .reset node time, false, [], .empty, .empty, [], []⟩

variable (driver : Driver)

def accepts (proposalBytes : Nat) : Bool :=
  !driver.stopped && driver.books.admits driver.limits proposalBytes

/-- `Propose`. The map keeps what it has under an id that is already there. -/
def propose (uuid proposalBytes : Nat) : Driver :=
  let number := driver.books.contexts.length
  if driver.accepts proposalBytes then { driver with
    drawn := driver.drawn.erase uuid
    books := driver.books.register uuid proposalBytes
    pending := if driver.pending.contains uuid then driver.pending else driver.pending.put uuid number
    posted := driver.posted ++ [(uuid, number)] }
  else { driver with drawn := driver.drawn.erase uuid }

def removePendingPromise (uuid number : Nat) : Driver :=
  if driver.pending.get uuid = some number then
    { driver with books := driver.books.release number, pending := driver.pending.erase uuid }
  else driver

/-- The part of `Propose` that is posted to the raft thread. The raft refuses the
proposal when it does not lead or its `Step` fails. -/
def stepPosted (refused : Bool) : Option Driver :=
  match driver.posted with
  | [] => none
  | (uuid, number) :: posted =>
    if driver.stopped ∨ refused then some ({ driver with posted }.removePendingPromise uuid number)
    else some { driver with posted }

def rejectPendingPromises : Driver :=
  { driver with
    books := (driver.pending.entries.map Prod.snd).foldl Books.release driver.books
    pending := .empty }

def handOut (uuid : Option Nat) : Driver :=
  match uuid.bind driver.pending.get, uuid with
  | some number, some uuid => { driver with
      pending := driver.pending.erase uuid
      operations := driver.operations ++ [some number] }
  | _, _ => { driver with operations := driver.operations ++ [none] }

/-- `Apply` for the next operation. One that throws is released as well, and the
process ends. -/
def applyNext : Option Driver :=
  match driver.operations with
  | [] => none
  | none :: operations => some { driver with operations }
  | some number :: operations => some { driver with books := driver.books.release number, operations }

/-- `Stop` raises the flag before it rejects, and others may come in between. -/
def step : Action → Option Driver
  | .draw =>
    let (uuid, generator) := driver.generator.next
    some { driver with generator, drawn := driver.drawn ++ [uuid] }
  | .propose uuid proposalBytes =>
    if uuid ∈ driver.drawn then some (driver.propose uuid proposalBytes) else none
  | .stepPosted refused => driver.stepPosted refused
  | .timeout number =>
    (driver.books.contexts[number]?).map fun context => driver.removePendingPromise context.id number
  | .rejectPendingPromises => some driver.rejectPendingPromises
  | .stop => some { driver with stopped := true }
  | .handOut uuid => some (driver.handOut uuid)
  | .applyNext => driver.applyNext

/-- A proposal that is accepted comes with an id that no other one waits for. -/
def freshIds : Action → Prop
  | .propose uuid proposalBytes =>
    driver.accepts proposalBytes = true → driver.pending.get uuid = none
  | _ => True

instance (action : Action) : Decidable (driver.freshIds action) := by
  unfold freshIds
  split <;> infer_instance

end Driver

variable {uuid : Nat}

namespace Books

/-- The counters say what is accounted, an accounted context was never released
and every other one exactly once, and the limits are kept. -/
structure Balanced (limits : Limits) (books : Books) : Prop where
  proposals : books.pendingProposals = books.accounted.length
  bytes : books.pendingProposalBytes = (books.accounted.map Context.proposalBytes).sum
  once : ∀ context ∈ books.contexts, context.releases = if context.proposalAccounted then 0 else 1
  size : ∀ context ∈ books.contexts, context.proposalBytes ≤ limits.maxProposalBytes
  proposals_le : books.pendingProposals ≤ limits.maxPendingProposals
  bytes_le : books.pendingProposalBytes ≤ limits.maxPendingProposalBytes

theorem Balanced.empty (limits : Limits) : Books.empty.Balanced limits where
  proposals := rfl
  bytes := rfl
  once := by simp [Books.empty]
  size := by simp [Books.empty]
  proposals_le := Nat.zero_le _
  bytes_le := Nat.zero_le _

variable {books : Books} {limits : Limits} {number proposalBytes : Nat} {context : Context}

theorem admits_iff :
    books.admits limits proposalBytes = true ↔ proposalBytes ≤ limits.maxProposalBytes ∧
      books.pendingProposals < limits.maxPendingProposals ∧
      books.pendingProposalBytes + proposalBytes ≤ limits.maxPendingProposalBytes := by
  unfold admits
  grind

theorem Balanced.register (balanced : books.Balanced limits)
    (admitted : books.admits limits proposalBytes = true) :
    (books.register uuid proposalBytes).Balanced limits := by
  obtain ⟨size, room, bytesRoom⟩ := admits_iff.mp admitted
  have := limits.proposalsFit
  have := limits.bytesFit
  rw [Books.register, Nat.mod_eq_of_lt (by omega), Nat.mod_eq_of_lt (by omega)]
  constructor
  · simp [accounted, balanced.proposals]
  · simp [accounted, balanced.bytes]
  · exact forall_mem_snoc balanced.once rfl
  · exact forall_mem_snoc balanced.size size
  · exact room
  · exact bytesRoom

theorem Balanced.split (balanced : books.Balanced limits)
    (found : books.contexts[number]? = some context) (counted : context.proposalAccounted = true) :
    let others := (books.contexts.set number context.release).filter Context.proposalAccounted
    books.pendingProposals = others.length + 1 ∧
      books.pendingProposalBytes = context.proposalBytes + (others.map Context.proposalBytes).sum := by
  intro others
  have left : books.accounted.Perm (context :: others) :=
    filter_perm_cons_filter_set found counted context.accounted_release
  constructor
  · rw [balanced.proposals, left.length_eq, length_cons]
  · rw [balanced.bytes, (left.map Context.proposalBytes).sum_nat, map_cons, sum_cons]

theorem Balanced.covers (balanced : books.Balanced limits) (mem : context ∈ books.contexts)
    (counted : context.proposalAccounted = true) :
    0 < books.pendingProposals ∧ context.proposalBytes ≤ books.pendingProposalBytes := by
  obtain ⟨number, found⟩ := getElem?_of_mem mem
  obtain ⟨proposals, bytes⟩ := balanced.split found counted
  omega

theorem getElem?_release (books : Books) (number wanted : Nat) :
    (books.release number).contexts[wanted]? =
      if wanted = number then (books.contexts[wanted]?).map Context.release
      else books.contexts[wanted]? := by
  unfold release
  split
  next missing =>
    split <;> simp_all
  next context found =>
    by_cases same : wanted = number
    · subst same
      by_cases counted : context.proposalAccounted
      · have inside : wanted < books.contexts.length := (List.getElem?_eq_some_iff.mp found).1
        rw [if_pos counted, if_pos rfl, found, map_some, getElem?_set_self inside]
      · simp [counted, found, Context.release]
    · split <;> simp [Ne.symm same]

theorem Balanced.release (balanced : books.Balanced limits) (number : Nat) :
    (books.release number).Balanced limits := by
  unfold Books.release
  split
  · exact balanced
  rename_i context found
  split
  case isFalse => exact balanced
  rename_i counted
  have mem := mem_of_getElem? found
  obtain ⟨positive, covered⟩ := balanced.covers mem counted
  obtain ⟨proposals, bytes⟩ := balanced.split found counted
  rw [if_pos positive, if_pos covered]
  have each : ∀ other ∈ books.contexts.set number context.release,
      other = context.release ∨ other ∈ books.contexts := fun other mem =>
    (mem_or_eq_of_mem_set mem).symm
  constructor
  · simp only [accounted]
    omega
  · simp only [accounted]
    omega
  · intro other among
    rcases each other among with rfl | old
    · have never := balanced.once context mem
      simp [Context.release, counted, never]
    · exact balanced.once other old
  · intro other among
    rcases each other among with rfl | old
    · simpa [Context.release, counted] using balanced.size context mem
    · exact balanced.size other old
  · have := balanced.proposals_le
    simp only
    omega
  · have := balanced.bytes_le
    simp only
    omega

theorem Balanced.releaseAll (balanced : books.Balanced limits) (numbers : List Nat) :
    (numbers.foldl Books.release books).Balanced limits := by
  induction numbers generalizing books with
  | nil => exact balanced
  | cons number rest ih => exact ih (balanced.release number)

def Accounts (books : Books) (number : Nat) (context : Context) : Prop :=
  books.contexts[number]? = some context ∧ context.proposalAccounted = true

theorem Accounts.number_lt (accounts : books.Accounts number context) : number < books.contexts.length :=
  (List.getElem?_eq_some_iff.mp accounts.1).1

theorem accounts_register :
    (books.register uuid proposalBytes).Accounts number context ↔ books.Accounts number context ∨
      number = books.contexts.length ∧ context = ⟨uuid, proposalBytes, true, 0⟩ := by
  simp only [Accounts, register, getElem?_snoc, or_and_right]
  exact or_congr_right (and_iff_left_of_imp fun ⟨_, same⟩ => same ▸ rfl)

theorem accounts_release {released : Nat} :
    (books.release released).Accounts number context ↔ number ≠ released ∧ books.Accounts number context := by
  unfold Accounts
  rw [getElem?_release]
  by_cases same : number = released
  · subst same
    simp only [if_true, map_eq_some_iff, ne_eq, not_true_eq_false, false_and, iff_false]
    rintro ⟨⟨old, -, rfl⟩, counted⟩
    simp at counted
  · simp [same]

theorem accounts_releaseAll {numbers : List Nat} :
    (numbers.foldl Books.release books).Accounts number context ↔
      number ∉ numbers ∧ books.Accounts number context := by
  induction numbers generalizing books with
  | nil => simp
  | cons first rest ih =>
    rw [foldl_cons, ih, accounts_release]
    simp only [mem_cons, not_or]
    tauto

end Books

/-! ## Who holds a context -/

/-- A context is accounted as long as the map has it under its id or an operation
carries it, and never both. -/
structure Held (books : Books) (pending : Table Nat Nat) (operations : List (Option Nat)) : Prop where
  registered : ∀ uuid number, pending.get uuid = some number →
    ∃ context, books.Accounts number context ∧ context.id = uuid
  queued : ∀ number, some number ∈ operations → ∃ context, books.Accounts number context
  apart : ∀ uuid number, pending.get uuid = some number → some number ∉ operations
  queuedOnce : operations.Pairwise fun first second => first = none ∨ first ≠ second
  kept : ∀ number context, books.Accounts number context →
    pending.get context.id = some number ∨ some number ∈ operations

namespace Held

variable {books : Books} {pending : Table Nat Nat} {operations : List (Option Nat)}

theorem empty : Held .empty .empty [] where
  registered := by simp
  queued := by simp
  apart := by simp
  queuedOnce := .nil
  kept := by simp [Books.empty, Books.Accounts]

variable {number : Nat}

section

variable (held : Held books pending operations)
include held

theorem sameId {first second : Nat}
    (waits : pending.get first = some number) (again : pending.get second = some number) : first = second := by
  obtain ⟨context, accounts, rfl⟩ := held.registered first number waits
  obtain ⟨other, twice, rfl⟩ := held.registered second number again
  rw [some.inj (accounts.1.symm.trans twice.1)]

theorem register (proposalBytes : Nat) (fresh : pending.get uuid = none) :
    Held (books.register uuid proposalBytes) (pending.put uuid books.contexts.length) operations := by
  constructor
  · intro wanted number waits
    rw [get_put] at waits
    split at waits
    next same =>
      cases waits
      exact ⟨_, Books.accounts_register.mpr (.inr ⟨rfl, rfl⟩), same.symm⟩
    · obtain ⟨context, accounts, named⟩ := held.registered wanted number waits
      exact ⟨context, Books.accounts_register.mpr (.inl accounts), named⟩
  · intro number mem
    obtain ⟨context, accounts⟩ := held.queued number mem
    exact ⟨context, Books.accounts_register.mpr (.inl accounts)⟩
  · intro wanted number waits mem
    rw [get_put] at waits
    split at waits
    · -- An operation cannot have the number of a context that is only made now.
      cases waits
      obtain ⟨context, accounts⟩ := held.queued _ mem
      exact absurd accounts.number_lt (lt_irrefl _)
    · exact held.apart wanted number waits mem
  · exact held.queuedOnce
  · intro number context accounts
    rw [get_put]
    rcases Books.accounts_register.mp accounts with before | ⟨rfl, rfl⟩
    · rcases held.kept number context before with waits | mem
      · have differs : context.id ≠ uuid := by
          rintro rfl
          simp [fresh] at waits
        exact .inl (by rw [if_neg differs, waits])
      · exact .inr mem
    · simp

theorem drop (waits : pending.get uuid = some number) :
    Held (books.release number) (pending.erase uuid) operations := by
  constructor
  · intro wanted other found
    obtain ⟨differs, found⟩ := get_erase_eq_some.mp found
    obtain ⟨context, accounts, named⟩ := held.registered wanted other found
    have different : other ≠ number := fun same => differs (held.sameId (same ▸ found) waits)
    exact ⟨context, Books.accounts_release.mpr ⟨different, accounts⟩, named⟩
  · intro other mem
    obtain ⟨context, accounts⟩ := held.queued other mem
    have different : other ≠ number := fun same => held.apart uuid number waits (same ▸ mem)
    exact ⟨context, Books.accounts_release.mpr ⟨different, accounts⟩⟩
  · exact fun wanted other found => held.apart wanted other (get_erase_eq_some.mp found).2
  · exact held.queuedOnce
  · intro other context accounts
    obtain ⟨different, before⟩ := Books.accounts_release.mp accounts
    refine (held.kept other context before).imp_left fun found => get_erase_eq_some.mpr ⟨?_, found⟩
    rintro rfl
    exact different (some.inj (found.symm.trans waits))

theorem rejectAll :
    Held ((pending.entries.map Prod.snd).foldl Books.release books) .empty operations := by
  have waits : ∀ {number}, number ∈ pending.entries.map Prod.snd ↔ ∃ uuid, pending.get uuid = some number := by
    simp [get_eq_some_iff]
  constructor
  · simp
  · intro number mem
    obtain ⟨context, accounts⟩ := held.queued number mem
    refine ⟨context, Books.accounts_releaseAll.mpr ⟨?_, accounts⟩⟩
    rw [waits]
    rintro ⟨uuid, found⟩
    exact held.apart uuid number found mem
  · simp
  · exact held.queuedOnce
  · intro number context accounts
    obtain ⟨absent, before⟩ := Books.accounts_releaseAll.mp accounts
    rcases held.kept number context before with found | mem
    · exact absurd (waits.mpr ⟨_, found⟩) absent
    · exact .inr mem

theorem handOut (waits : pending.get uuid = some number) :
    Held books (pending.erase uuid) (operations ++ [some number]) := by
  constructor
  · exact fun wanted other found => held.registered wanted other (get_erase_eq_some.mp found).2
  · intro other mem
    rcases mem_append.mp mem with before | last
    · exact held.queued other before
    cases mem_singleton.mp last
    obtain ⟨context, accounts, -⟩ := held.registered uuid number waits
    exact ⟨context, accounts⟩
  · intro wanted other found mem
    obtain ⟨differs, found⟩ := get_erase_eq_some.mp found
    rcases mem_append.mp mem with before | last
    · exact held.apart wanted other found before
    · cases mem_singleton.mp last
      exact differs (held.sameId found waits)
  · refine pairwise_snoc.mpr ⟨held.queuedOnce, fun earlier before => .inr fun same => ?_⟩
    exact held.apart uuid number waits (same ▸ before)
  · intro other context accounts
    rcases held.kept other context accounts with found | mem
    · by_cases same : context.id = uuid
      · have : other = number := some.inj (found.symm.trans (same ▸ waits))
        exact .inr (by simp [this])
      · exact .inl (get_erase_eq_some.mpr ⟨same, found⟩)
    · exact .inr (mem_append_left _ mem)

theorem handOut_none : Held books pending (operations ++ [none]) where
  registered := held.registered
  queued number mem := held.queued number (by simpa using mem)
  apart uuid number waits mem := held.apart uuid number waits (by simpa using mem)
  queuedOnce := pairwise_snoc.mpr ⟨held.queuedOnce, fun earlier _ => eq_or_ne earlier none⟩
  kept number context accounts :=
    (held.kept number context accounts).imp_right (mem_append_left _)

end

theorem apply (held : Held books pending (some number :: operations)) :
    Held (books.release number) pending operations := by
  obtain ⟨first, queuedOnce⟩ := pairwise_cons.mp held.queuedOnce
  constructor
  · intro uuid other waits
    obtain ⟨context, accounts, named⟩ := held.registered uuid other waits
    have different : other ≠ number := by
      rintro rfl
      exact held.apart uuid other waits mem_cons_self
    exact ⟨context, Books.accounts_release.mpr ⟨different, accounts⟩, named⟩
  · intro other mem
    obtain ⟨context, accounts⟩ := held.queued other (mem_cons_of_mem _ mem)
    have different : other ≠ number := by
      rintro rfl
      simpa using first (some other) mem
    exact ⟨context, Books.accounts_release.mpr ⟨different, accounts⟩⟩
  · intro uuid other waits mem
    exact held.apart uuid other waits (mem_cons_of_mem _ mem)
  · exact queuedOnce
  · intro other context accounts
    obtain ⟨different, before⟩ := Books.accounts_release.mp accounts
    rcases held.kept other context before with waits | mem
    · exact .inl waits
    · simpa [different] using Or.inr mem

theorem apply_none (held : Held books pending (none :: operations)) : Held books pending operations where
  registered := held.registered
  queued number mem := held.queued number (mem_cons_of_mem _ mem)
  apart uuid number waits mem := held.apart uuid number waits (mem_cons_of_mem _ mem)
  queuedOnce := (pairwise_cons.mp held.queuedOnce).2
  kept number context accounts := by simpa using held.kept number context accounts

end Held

namespace Driver

def Waits (driver : Driver) (number : Nat) (context : Context) : Prop :=
  driver.pending.get context.id = some number ∨ some number ∈ driver.operations

/-- The counters are the number and the size of the accounted contexts, stay
within the limits and cover every context that is still to be released, and a
context is released once, when nobody waits for it any more. -/
structure InOrder (driver : Driver) : Prop where
  proposals : driver.books.pendingProposals = driver.books.accounted.length
  bytes : driver.books.pendingProposalBytes = (driver.books.accounted.map Context.proposalBytes).sum
  covers : ∀ context ∈ driver.books.accounted, 0 < driver.books.pendingProposals ∧
    context.proposalBytes ≤ driver.books.pendingProposalBytes
  waiting : ∀ number context, driver.books.contexts[number]? = some context → driver.Waits number context →
    context.proposalAccounted = true ∧ context.releases = 0
  released : ∀ number context, driver.books.contexts[number]? = some context → ¬ driver.Waits number context →
    context.proposalAccounted = false ∧ context.releases = 1
  size : ∀ context ∈ driver.books.contexts, context.proposalBytes ≤ driver.limits.maxProposalBytes
  proposals_le : driver.books.pendingProposals ≤ driver.limits.maxPendingProposals
  bytes_le : driver.books.pendingProposalBytes ≤ driver.limits.maxPendingProposalBytes

def Balanced (driver : Driver) : Prop := driver.books.Balanced driver.limits

def Held (driver : Driver) : Prop :=
  ProposalAccounting.Held driver.books driver.pending driver.operations

variable {driver next : Driver} {action : Action}

theorem inOrder (balanced : driver.Balanced) (held : driver.Held) : driver.InOrder where
  proposals := balanced.proposals
  bytes := balanced.bytes
  covers context among := by
    obtain ⟨mem, counted⟩ := mem_filter.mp among
    exact Books.Balanced.covers balanced mem counted
  waiting number context found waits := by
    obtain ⟨other, accounts⟩ : ∃ other, driver.books.Accounts number other := by
      rcases waits with waits | mem
      · obtain ⟨other, accounts, -⟩ := held.registered _ number waits
        exact ⟨other, accounts⟩
      · exact held.queued number mem
    obtain rfl : context = other := some.inj (found.symm.trans accounts.1)
    have never := balanced.once context (mem_of_getElem? found)
    rw [if_pos accounts.2] at never
    exact ⟨accounts.2, never⟩
  released number context found gone := by
    have once := balanced.once context (mem_of_getElem? found)
    have out : ¬ context.proposalAccounted = true := fun counted =>
      gone (held.kept number context ⟨found, counted⟩)
    rw [if_neg out] at once
    exact ⟨by simpa using out, once⟩
  size := balanced.size
  proposals_le := balanced.proposals_le
  bytes_le := balanced.bytes_le

/-- What an action can do to the counters, the map and the queue of operations. -/
inductive Changes (driver : Driver) : Action → Books → Table Nat Nat → List (Option Nat) → Prop where
  | nothing (action : Action) : Changes driver action driver.books driver.pending driver.operations
  | registers {uuid proposalBytes : Nat} (accepted : driver.accepts proposalBytes = true) :
    Changes driver (.propose uuid proposalBytes) (driver.books.register uuid proposalBytes)
      (if driver.pending.contains uuid then driver.pending
        else driver.pending.put uuid driver.books.contexts.length)
      driver.operations
  | drops {uuid number : Nat} (action : Action) (waits : driver.pending.get uuid = some number) :
    Changes driver action (driver.books.release number) (driver.pending.erase uuid) driver.operations
  | rejects : Changes driver .rejectPendingPromises
      ((driver.pending.entries.map Prod.snd).foldl Books.release driver.books) .empty driver.operations
  | handsOut {uuid number : Nat} (waits : driver.pending.get uuid = some number) :
    Changes driver (.handOut (some uuid)) driver.books (driver.pending.erase uuid)
      (driver.operations ++ [some number])
  | handsOutNone (uuid : Option Nat) :
    Changes driver (.handOut uuid) driver.books driver.pending (driver.operations ++ [none])
  | applies {number : Nat} {operations : List (Option Nat)} (first : driver.operations = some number :: operations) :
    Changes driver .applyNext (driver.books.release number) driver.pending operations
  | appliesNone {operations : List (Option Nat)} (first : driver.operations = none :: operations) :
    Changes driver .applyNext driver.books driver.pending operations

def idsAfter (driver : Driver) : Action → Generator × List Nat
  | .draw => (driver.generator.next.2, driver.drawn ++ [driver.generator.next.1])
  | .propose uuid _ => (driver.generator, driver.drawn.erase uuid)
  | _ => (driver.generator, driver.drawn)

theorem changes_removePendingPromise (driver : Driver) (action : Action) (posted : List (Nat × Nat))
    (uuid number : Nat) :
    let next := { driver with posted }.removePendingPromise uuid number
    next.limits = driver.limits ∧ (next.generator, next.drawn) = (driver.generator, driver.drawn) ∧
      driver.Changes action next.books next.pending next.operations := by
  unfold removePendingPromise
  split
  next waits =>
    exact ⟨rfl, rfl, .drops action waits⟩
  · exact ⟨rfl, rfl, .nothing action⟩

theorem step_changes (taken : driver.step action = some next) :
    next.limits = driver.limits ∧ (next.generator, next.drawn) = driver.idsAfter action ∧
      driver.Changes action next.books next.pending next.operations := by
  cases action with
  | draw | stop =>
    cases taken
    exact ⟨rfl, rfl, .nothing _⟩
  | propose uuid proposalBytes =>
    simp only [step] at taken
    split at taken
    · cases taken
      unfold propose
      split
      next accepted =>
        exact ⟨rfl, rfl, .registers accepted⟩
      · exact ⟨rfl, rfl, .nothing _⟩
    · cases taken
  | stepPosted refused =>
    simp only [step, stepPosted] at taken
    split at taken
    · cases taken
    rename_i uuid number posted _
    split at taken
    · cases taken
      exact driver.changes_removePendingPromise _ posted uuid number
    · cases taken
      exact ⟨rfl, rfl, .nothing _⟩
  | timeout number =>
    obtain ⟨context, -, rfl⟩ := map_eq_some_iff.mp taken
    exact driver.changes_removePendingPromise _ driver.posted context.id number
  | rejectPendingPromises =>
    cases taken
    exact ⟨rfl, rfl, .rejects⟩
  | handOut uuid =>
    cases taken
    unfold handOut
    split
    next uuid waits =>
      exact ⟨rfl, rfl, .handsOut waits⟩
    · exact ⟨rfl, rfl, .handsOutNone _⟩
  | applyNext =>
    simp only [step, applyNext] at taken
    split at taken
    · cases taken
    next first =>
      cases taken
      exact ⟨rfl, rfl, .appliesNone first⟩
    next first =>
      cases taken
      exact ⟨rfl, rfl, .applies first⟩

theorem Balanced.step (balanced : driver.Balanced) (taken : driver.step action = some next) : next.Balanced := by
  obtain ⟨limits, -, changes⟩ := step_changes taken
  unfold Balanced at balanced ⊢
  rw [limits]
  generalize next.books = books, next.pending = pending, next.operations = operations at changes ⊢
  cases changes with
  | nothing | handsOut | handsOutNone | appliesNone => exact balanced
  | registers accepted => exact balanced.register (Bool.and_eq_true_iff.mp accepted).2
  | drops | applies => exact balanced.release _
  | rejects => exact balanced.releaseAll _

theorem Held.step (held : driver.Held) (fresh : driver.freshIds action)
    (taken : driver.step action = some next) : next.Held := by
  obtain ⟨-, -, changes⟩ := step_changes taken
  unfold Held at held ⊢
  generalize next.books = books, next.pending = pending, next.operations = operations at changes ⊢
  cases changes with
  | nothing => exact held
  | registers accepted =>
    have absent := fresh accepted
    rw [Table.contains, absent]
    exact held.register _ absent
  | drops _ waits => exact held.drop waits
  | rejects => exact held.rejectAll
  | handsOut waits => exact held.handOut waits
  | handsOutNone => exact held.handOut_none
  | applies first => exact (first ▸ held).apply
  | appliesNone first => exact (first ▸ held).apply_none

/-! ## Ids that come again -/

def idAt (first : Generator) (count : Nat) : Nat :=
  ({ first with suffix := (first.suffix + count) % 2 ^ 64 } : Generator).next.1

theorem idAt_mod (node time count : Nat) :
    idAt (.reset node time) count % 2 ^ 48 = ((Generator.reset node time).suffix + count + 1) % 2 ^ 48 := by
  have nodeBits : (reset node time).nodeBits % 2 ^ 48 = 0 := by
    simp only [reset, suffixLen, tsLen, cntLen]
    omega
  simp only [idAt, Generator.next, lowbit, suffixLen, tsLen, cntLen]
  rw [Nat.or_mod_two_pow, nodeBits, Nat.zero_or]
  omega

/-- The ids that are drawn or waited for are among the first ones, each once. -/
structure IdsApart (first : Generator) (count : Nat) (driver : Driver) : Prop where
  generator : driver.generator = { first with suffix := (first.suffix + count) % 2 ^ 64 }
  early : ∀ uuid, uuid ∈ driver.drawn ∨ driver.pending.contains uuid → ∃ earlier < count, uuid = idAt first earlier
  once : driver.drawn.Nodup
  apart : ∀ uuid ∈ driver.drawn, driver.pending.get uuid = none

theorem IdsApart.start (limits : Limits) (node time : Nat) :
    IdsApart (.reset node time) 0 (start limits node time) where
  generator := by
    have inRange : (reset node time).suffix < 2 ^ 64 := by
      simp only [reset, lowbit, tsLen, cntLen]
      omega
    rw [add_zero, Nat.mod_eq_of_lt inRange]
    rfl
  early := by simp [Driver.start, Table.contains]
  once := .nil
  apart := by simp [Driver.start]

theorem pending_step (taken : driver.step action = some next)
    (absent : driver.pending.get uuid = none) (other : ∀ proposalBytes, action ≠ .propose uuid proposalBytes) :
    next.pending.get uuid = none := by
  obtain ⟨-, -, changes⟩ := step_changes taken
  generalize next.books = books, next.pending = pending, next.operations = operations at changes ⊢
  cases changes with
  | nothing | handsOutNone | applies | appliesNone => exact absent
  | @registers proposed proposalBytes accepted =>
    have differs : uuid ≠ proposed := by
      rintro rfl
      exact other proposalBytes rfl
    split
    · exact absent
    · rw [get_put, if_neg differs, absent]
  | drops | handsOut => rw [get_erase, absent, ite_self]
  | rejects => rfl

variable {node time : Nat}

theorem IdsApart.draw {count : Nat} (ids : IdsApart (.reset node time) count driver)
    (few : count < 2 ^ 48) :
    IdsApart (.reset node time) (count + 1) { driver with
      generator := driver.generator.next.2, drawn := driver.drawn ++ [driver.generator.next.1] } := by
  have drawn : driver.generator.next.1 = idAt (.reset node time) count := by rw [ids.generator, idAt]
  have new : ∀ earlier < count, idAt (.reset node time) earlier ≠ idAt (.reset node time) count := by
    intro earlier before same
    have rests := congrArg (fun id => id % 2 ^ 48) same
    simp only [idAt_mod] at rests
    omega
  have unseen : ∀ uuid, uuid ∈ driver.drawn ∨ driver.pending.contains uuid →
      uuid ≠ idAt (.reset node time) count := by
    intro uuid seen
    obtain ⟨earlier, before, rfl⟩ := ids.early uuid seen
    exact new earlier before
  constructor
  · simp only [ids.generator, Generator.next, Generator.mk.injEq, true_and]
    omega
  · intro uuid seen
    by_cases last : uuid = idAt (.reset node time) count
    · exact ⟨count, Nat.lt_succ_self count, last⟩
    · obtain ⟨earlier, before, same⟩ := ids.early uuid (by simpa [drawn, last] using seen)
      exact ⟨earlier, Nat.lt_succ_of_lt before, same⟩
  · rw [drawn]
    exact pairwise_snoc.mpr ⟨ids.once, fun uuid mem => unseen uuid (.inl mem)⟩
  · refine forall_mem_snoc ids.apart ?_
    rw [drawn]
    by_contra waits
    exact unseen _ (.inr (isSome_iff_ne_none.mpr waits)) rfl

theorem IdsApart.step {count : Nat} (ids : IdsApart (.reset node time) count driver)
    (few : count + [action].count .draw ≤ 2 ^ 48) (taken : driver.step action = some next) :
    IdsApart (.reset node time) (count + [action].count .draw) next := by
  by_cases draws : action = .draw
  · subst draws
    cases taken
    exact ids.draw few
  · have none : [action].count .draw = 0 := by simp [draws]
    have after := (step_changes taken).2.1
    -- A proposal takes its id out of the drawn ones, where it stood once.
    have fewer : next.generator = driver.generator ∧ next.drawn.Nodup ∧ ∀ uuid ∈ next.drawn,
        uuid ∈ driver.drawn ∧ ∀ proposalBytes, action ≠ .propose uuid proposalBytes := by
      cases action with
      | draw => exact absurd rfl draws
      | propose proposed =>
        simp only [idsAfter, Prod.mk.injEq] at after
        rw [after.1, after.2]
        refine ⟨rfl, ids.once.erase proposed, fun uuid mem => ?_⟩
        obtain ⟨differs, before⟩ := ids.once.mem_erase_iff.mp mem
        exact ⟨before, by simp [Ne.symm differs]⟩
      | _ =>
        simp only [idsAfter, Prod.mk.injEq] at after
        rw [after.1, after.2]
        exact ⟨rfl, ids.once, fun uuid mem => ⟨mem, by simp⟩⟩
    obtain ⟨generator, once, drawn⟩ := fewer
    rw [none]
    constructor
    · exact generator.trans ids.generator
    · rintro uuid (mem | waits)
      · exact ids.early uuid (.inl (drawn uuid mem).1)
      apply ids.early
      by_contra unseen
      simp only [not_or, Table.contains, Bool.not_eq_true, isSome_eq_false_iff,
        isNone_iff_eq_none] at unseen
      have absent := pending_step taken unseen.2 (by
        rintro proposalBytes rfl
        simp [Driver.step, unseen.1] at taken)
      simp [Table.contains, absent] at waits
    · exact once
    · intro uuid mem
      obtain ⟨before, other⟩ := drawn uuid mem
      exact pending_step taken (ids.apart uuid before) other

theorem runs_freshIds {limits : Limits} {actions : List Action}
    (run : Runs step anyAction (start limits node time) actions driver) (few : actions.count .draw ≤ 2 ^ 48) :
    Runs step freshIds (start limits node time) actions driver := by
  suffices both : Runs step freshIds (start limits node time) actions driver ∧
      IdsApart (.reset node time) (actions.count .draw) driver from both.1
  induction run with
  | nil => exact ⟨.nil, .start limits node time⟩
  | @snoc last next actions action _ _ taken ih =>
    rw [count_append] at few ⊢
    obtain ⟨fresh, ids⟩ := ih (by omega)
    refine ⟨.snoc fresh ?_ taken, ids.step few taken⟩
    cases action with
    | propose uuid proposalBytes =>
      intro _
      simp only [step] at taken
      split at taken
      next drawn =>
        exact ids.apart uuid drawn
      · cases taken
    | _ => trivial

/-- In every interleaving in which an accepted proposal has an id that no other
one waits for, the counters are those of the accounted contexts, never leave the
limits nor miss what is taken from them, and every context is released once.
Every interleaving with at most `2 ^ 48` draws is of this kind. -/
theorem inOrder_of_freshIds {limits : Limits} {node time : Nat} {actions : List Action} {driver : Driver} :
    (Runs step freshIds (start limits node time) actions driver → driver.InOrder) ∧
    (Runs step anyAction (start limits node time) actions driver → actions.count .draw ≤ 2 ^ 48 →
      Runs step freshIds (start limits node time) actions driver) := by
  refine ⟨fun run => ?_, runs_freshIds⟩
  have kept := run.invariant (fun driver => driver.Balanced ∧ driver.Held) ⟨.empty limits, .empty⟩ (by
    intro driver action next ⟨balanced, held⟩ fresh taken
    exact ⟨balanced.step taken, held.step fresh taken⟩)
  exact inOrder kept.1 kept.2

/-- One proposal is applied and another one waits. -/
theorem inOrder_oneWaits : ∃ limits actions driver,
    Runs step anyAction (start limits 1 0) actions driver ∧ driver.books.contexts.length = 2 ∧
      driver.books.pendingProposals = 1 ∧ driver.books.pendingProposalBytes = 5 ∧ driver.InOrder := by
  have computed : (execute step anyAction (start .small 1 0)
      [.draw, .draw, .propose (2 ^ 48 + 2) 3, .propose (2 ^ 48 + 1) 5, .stepPosted false,
        .handOut (some (2 ^ 48 + 2)), .timeout 0, .applyNext, .stepPosted false]).map
      (fun driver => (driver.books.contexts.length, driver.books.pendingProposals,
        driver.books.pendingProposalBytes)) = some (2, 1, 5) := by
    decide +kernel
  obtain ⟨driver, executed, counters⟩ := map_eq_some_iff.mp computed
  simp only [Prod.mk.injEq] at counters
  have run := runs_of_execute executed
  have fresh := inOrder_of_freshIds.2 run (by decide)
  exact ⟨.small, _, driver, run, counters.1, counters.2.1, counters.2.2, inOrder_of_freshIds.1 fresh⟩

/-- A context that is accounted but that nobody waits for. -/
structure Lost (number : Nat) (context : Context) (driver : Driver) : Prop where
  accounts : driver.books.Accounts number context
  unregistered : ∀ uuid, driver.pending.get uuid ≠ some number
  unqueued : some number ∉ driver.operations

theorem Lost.step {number : Nat} {context : Context} (lost : Lost number context driver)
    (taken : driver.step action = some next) : Lost number context next := by
  obtain ⟨-, -, changes⟩ := step_changes taken
  suffices kept : ∀ books pending operations, driver.Changes action books pending operations →
      books.Accounts number context ∧ (∀ uuid, pending.get uuid ≠ some number) ∧ some number ∉ operations by
    obtain ⟨accounts, unregistered, unqueued⟩ := kept _ _ _ changes
    exact ⟨accounts, unregistered, unqueued⟩
  intro books pending operations changes
  obtain ⟨accounts, unregistered, unqueued⟩ := lost
  cases changes with
  | nothing => exact ⟨accounts, unregistered, unqueued⟩
  | registers =>
    refine ⟨Books.accounts_register.mpr (.inl accounts), fun wanted => ?_, unqueued⟩
    have old := accounts.number_lt
    split
    · exact unregistered wanted
    rw [get_put]
    split
    · simp only [ne_eq, some.injEq]
      omega
    · exact unregistered wanted
  | drops _ waits =>
    refine ⟨Books.accounts_release.mpr ⟨?_, accounts⟩, fun wanted found => ?_, unqueued⟩
    · rintro rfl
      exact unregistered _ waits
    · exact unregistered wanted (get_erase_eq_some.mp found).2
  | rejects =>
    refine ⟨Books.accounts_releaseAll.mpr ⟨?_, accounts⟩, by simp, unqueued⟩
    intro mem
    obtain ⟨⟨uuid, _⟩, waits, rfl⟩ := List.mem_map.mp mem
    exact unregistered uuid ((get_eq_some_iff _).mpr waits)
  | handsOut waits =>
    refine ⟨accounts, fun wanted found => unregistered wanted (get_erase_eq_some.mp found).2, ?_⟩
    · intro mem
      rcases mem_append.mp mem with before | last
      · exact unqueued before
      · cases mem_singleton.mp last
        exact unregistered _ waits
  | handsOutNone => exact ⟨accounts, unregistered, by simpa using unqueued⟩
  | applies first =>
    rw [first, mem_cons, not_or] at unqueued
    refine ⟨Books.accounts_release.mpr ⟨?_, accounts⟩, unregistered, unqueued.2⟩
    rintro rfl
    exact unqueued.1 rfl
  | appliesNone first =>
    rw [first, mem_cons, not_or] at unqueued
    exact ⟨accounts, unregistered, unqueued.2⟩

/-- Callers whose proposal is too large, each with an id of its own. -/
def refusedCalls (proposalBytes : Nat) : Nat → Generator → List Action
  | 0, _ => []
  | count + 1, generator =>
    .draw :: .propose generator.next.1 proposalBytes :: refusedCalls proposalBytes count generator.next.2

theorem runs_refusedCalls (driver : Driver) {proposalBytes : Nat} (noneDrawn : driver.drawn = [])
    (refused : driver.accepts proposalBytes = false) (inRange : driver.generator.suffix < 2 ^ 64) (count : Nat) :
    Runs step anyAction driver (refusedCalls proposalBytes count driver.generator)
      { driver with generator :=
        { driver.generator with suffix := (driver.generator.suffix + count) % 2 ^ 64 } } := by
  induction count generalizing driver with
  | zero =>
    rw [add_zero, Nat.mod_eq_of_lt inRange]
    exact .nil
  | succ count ih =>
    let drawn : Driver :=
      { driver with generator := driver.generator.next.2, drawn := [driver.generator.next.1] }
    let proposed : Driver := { driver with generator := driver.generator.next.2 }
    have draws : driver.step .draw = some drawn := by
      simp [step, noneDrawn, drawn]
    have proposes : drawn.step (.propose driver.generator.next.1 proposalBytes) = some proposed := by
      have still : drawn.accepts proposalBytes = false := refused
      rw [step, propose, still]
      simp [drawn, proposed, noneDrawn]
    have rest := ih proposed noneDrawn refused (Nat.mod_lt _ (by decide))
    have suffix : (proposed.generator.suffix + count) % 2 ^ 64 =
        (driver.generator.suffix + (count + 1)) % 2 ^ 64 := by
      simp only [proposed, Generator.next]
      omega
    rw [suffix] at rest
    exact Runs.append (.snoc (.snoc .nil trivial draws) trivial proposes) rest

/-- A call that gets the id of a waiting one again, after 2 ^ 48 ids, is counted
but not registered, and its place in the counters is never given back. -/
theorem lost_repeatedId : ∃ limits actions driver, Runs step anyAction (start limits 1 0) actions driver ∧
    driver.pending.entries = [] ∧ driver.posted = [] ∧ driver.operations = [] ∧
    driver.books.pendingProposals = 1 ∧ ¬ driver.InOrder ∧
    ∀ more last, Runs step anyAction driver more last → ∃ context,
      last.books.contexts[1]? = some context ∧ context.proposalAccounted = true ∧ context.releases = 0 := by
  let called : Driver := { start .small 1 0 with generator := ⟨2 ^ 48, 1⟩, drawn := [2 ^ 48 + 1] }
  let waiting : Driver := { called with
    drawn := []
    books := ⟨[⟨2 ^ 48 + 1, 3, true, 0⟩], 1, 3⟩
    pending := Table.empty.put (2 ^ 48 + 1) 0
    posted := [(2 ^ 48 + 1, 0)] }
  have draws : (start .small 1 0).step .draw = some called := rfl
  have proposes : called.step (.propose (2 ^ 48 + 1) 3) = some waiting := rfl
  have refused : waiting.accepts 9 = false := rfl
  have between := runs_refusedCalls waiting rfl refused (by decide) (2 ^ 48 - 1)
  have used : (waiting.generator.suffix + (2 ^ 48 - 1)) % 2 ^ 64 = 2 ^ 48 := by decide
  rw [used] at between
  have computed : (execute step anyAction { waiting with generator := ⟨2 ^ 48, 2 ^ 48⟩ }
      [.draw, .propose (2 ^ 48 + 1) 5, .stepPosted false, .stepPosted false,
        .handOut (some (2 ^ 48 + 1)), .applyNext]).map
      (fun driver => (driver.pending.entries, driver.posted, driver.operations, driver.books)) =
      some ([], [], [], ⟨[⟨2 ^ 48 + 1, 3, false, 1⟩, ⟨2 ^ 48 + 1, 5, true, 0⟩], 1, 5⟩) := by
    decide +kernel
  obtain ⟨driver, executed, rest⟩ := map_eq_some_iff.mp computed
  simp only [Prod.mk.injEq] at rest
  obtain ⟨pending, posted, operations, books⟩ := rest
  have run := ((Runs.snoc (.snoc .nil trivial draws) trivial proposes).append between).append
    (runs_of_execute executed)
  have lost : Lost 1 ⟨2 ^ 48 + 1, 5, true, 0⟩ driver := by
    refine ⟨by rw [books]; exact ⟨rfl, rfl⟩, fun uuid => ?_, by simp [operations]⟩
    simp [Table.get, pending, Table.find]
  refine ⟨.small, _, driver, run, pending, posted, operations, by rw [books], fun ordered => ?_, ?_⟩
  · have gone : ¬ driver.Waits 1 ⟨2 ^ 48 + 1, 5, true, 0⟩ := by
      rintro (waits | mem)
      · exact lost.unregistered _ waits
      · exact lost.unqueued mem
    cases (ordered.released 1 _ lost.accounts.1 gone).1
  · intro more last later
    exact ⟨_, (later.invariant (Lost _ _) lost fun _ _ _ lost _ taken => lost.step taken).accounts.1, rfl, rfl⟩

end Driver

end RocksGraph.ProposalAccounting
