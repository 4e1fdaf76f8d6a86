import RocksGraph.Bolt.Handler

/-! What the effects of a session say about its transactions.

A transaction is committed at most once, and an auto-commit query only after its
cursor has given its last row and all of its rows were passed on. -/

set_option autoImplicit false

namespace RocksGraph.Bolt

open Foundation List

def Effect.transaction : Effect → Option Nat
  | .begin transaction _ => some transaction
  | .next transaction _ => transaction
  | .deliver transaction _ => transaction
  | .discard transaction _ => transaction
  | .commit transaction => some transaction

def committed (effects : List Effect) : List Nat :=
  effects.filterMap fun
    | .commit transaction => some transaction
    | _ => none

def taken (transaction : Nat) (effects : List Effect) : List Row :=
  effects.filterMap fun
    | .next (some found) (some row) => if found = transaction then some row else none
    | _ => none

def passed (transaction : Nat) (effects : List Effect) : List Row :=
  effects.filterMap fun
    | .deliver (some found) row => if found = transaction then some row else none
    | .discard (some found) row => if found = transaction then some row else none
    | _ => none

/-- The records of the rows that went to the client. -/
def delivered (codec : Codec) (effects : List Effect) : List Response :=
  effects.filterMap fun
    | .deliver _ row => (codec.convertRow row).toOption.map .record
    | _ => none

theorem delivered_append (codec : Codec) (first second : List Effect) :
    delivered codec (first ++ second) = delivered codec first ++ delivered codec second :=
  filterMap_append

theorem delivered_isRecord (codec : Codec) (effects : List Effect) :
    ∀ response ∈ delivered codec effects, response.isRecord := by
  intro response mem
  obtain ⟨effect, -, isRecord⟩ := mem_filterMap.mp mem
  cases effect with
  | deliver transaction row =>
    obtain ⟨record, -, rfl⟩ := Option.map_eq_some_iff.mp isRecord
    rfl
  | _ => cases isRecord

@[simp] theorem committed_append (first second : List Effect) :
    committed (first ++ second) = committed first ++ committed second := filterMap_append

@[simp] theorem taken_append (transaction : Nat) (first second : List Effect) :
    taken transaction (first ++ second) = taken transaction first ++ taken transaction second :=
  filterMap_append

theorem mem_committed {effects : List Effect} {transaction : Nat} :
    transaction ∈ committed effects ↔ Effect.commit transaction ∈ effects := by
  unfold committed
  rw [mem_filterMap]
  constructor
  · rintro ⟨effect, mem, same⟩
    cases effect <;> simp_all
  · intro mem
    exact ⟨_, mem, rfl⟩

def Finished (transaction : Nat) (effects : List Effect) : Prop :=
  Effect.next (some transaction) none ∈ effects ∧ taken transaction effects = passed transaction effects

structure History (work : Work) : Prop where
  named : ∀ effect ∈ work.effects, ∀ transaction, effect.transaction = some transaction →
    transaction < work.nextTransaction
  kind : ∀ transaction explicit explicit', Effect.begin transaction explicit ∈ work.effects →
    Effect.begin transaction explicit' ∈ work.effects → explicit = explicit'
  begun : ∀ transaction ∈ committed work.effects, ∃ explicit, Effect.begin transaction explicit ∈ work.effects
  once : (committed work.effects).Nodup
  finished : ∀ before transaction after, work.effects = before ++ .commit transaction :: after →
    Effect.begin transaction false ∈ work.effects → Finished transaction before

/-- The open transactions are not committed. Of the rows that the auto-commit
query has taken, those in `held` are still to be passed on. -/
structure Live (held : List Row) (work : Work) : Prop where
  query : ∀ query transaction, work.session.activeQuery = some query → query.transaction = some transaction →
    Effect.begin transaction false ∈ work.effects ∧ transaction ∉ committed work.effects ∧
      taken transaction work.effects = passed transaction work.effects ++ held
  transaction : ∀ active transaction, work.session.activeTransaction = some active →
    active.transaction = some transaction →
    Effect.begin transaction true ∈ work.effects ∧ transaction ∉ committed work.effects

def BoltSession.held (session : BoltSession) : List Row :=
  (session.activeQuery.bind ActiveBoltQuery.bufferedRow).toList

variable {now : Work} {effects : List Effect} {transaction : Option Nat} {effect : Effect} {held : List Row}

def Effect.isRow : Effect → Bool
  | .begin _ _ => false
  | .commit _ => false
  | _ => true

def Work.emitted (work : Work) (effect : Effect) : Work := { work with effects := work.effects ++ [effect] }

theorem committed_row (isRow : effect.isRow) : committed [effect] = [] := by
  cases effect <;> simp_all [Effect.isRow, committed]

theorem begin_mem_row (isRow : effect.isRow) {transaction : Nat} {explicit : Bool} :
    Effect.begin transaction explicit ∈ effects ++ [effect] ↔ Effect.begin transaction explicit ∈ effects := by
  rw [mem_append, mem_singleton]
  constructor
  · rintro (mem | rfl)
    · exact mem
    · cases isRow
  · exact .inl

theorem History.row (history : History now) (isRow : effect.isRow)
    (isNamed : ∀ transaction, effect.transaction = some transaction → transaction < now.nextTransaction) :
    History (now.emitted effect) := by
  unfold Work.emitted
  constructor
  · exact forall_mem_snoc history.named isNamed
  · intro transaction explicit explicit' first second
    exact history.kind transaction explicit explicit' ((begin_mem_row isRow).mp first) ((begin_mem_row isRow).mp second)
  · intro transaction mem
    rw [committed_append, committed_row isRow, append_nil] at mem
    obtain ⟨explicit, begun⟩ := history.begun transaction mem
    exact ⟨explicit, mem_append_left _ begun⟩
  · simpa [committed_row isRow] using history.once
  · intro before transaction after split begun
    rcases split_concat split with ⟨-, rfl, -⟩ | ⟨rest, -, old⟩
    · cases isRow
    · exact history.finished before transaction rest old ((begin_mem_row isRow).mp begun)

theorem History.commit (history : History now) {transaction : Nat} {explicit : Bool}
    (isBegun : Effect.begin transaction explicit ∈ now.effects) (uncommitted : transaction ∉ committed now.effects)
    (isFinished : Effect.begin transaction false ∈ now.effects → Finished transaction now.effects) :
    History (now.emitted (.commit transaction)) := by
  have begun {other : Nat} {explicit : Bool}
      (mem : Effect.begin other explicit ∈ now.effects ++ [.commit transaction]) :
      Effect.begin other explicit ∈ now.effects := by
    simpa using mem
  unfold Work.emitted
  constructor
  · refine forall_mem_snoc history.named ?_
    rintro _ ⟨⟩
    exact history.named _ isBegun transaction rfl
  · exact fun other explicit explicit' first second => history.kind other explicit explicit' (begun first) (begun second)
  · intro other mem
    rcases mem_append.mp ((committed_append _ _) ▸ mem) with old | isNew
    · obtain ⟨kind, wasBegun⟩ := history.begun other old
      exact ⟨kind, mem_append_left _ wasBegun⟩
    · obtain rfl : other = transaction := mem_singleton.mp isNew
      exact ⟨explicit, mem_append_left _ isBegun⟩
  · rw [committed_append, nodup_append]
    refine ⟨history.once, by simp [committed], fun other mem found isNew => ?_⟩
    rw [show found = transaction from mem_singleton.mp isNew]
    rintro rfl
    exact uncommitted mem
  · intro before other after split wasBegun
    rcases split_concat split with ⟨-, same, rfl⟩ | ⟨rest, -, old⟩
    · cases same
      exact isFinished (begun wasBegun)
    · exact history.finished before other rest old (begun wasBegun)

theorem History.fresh (history : History now) :
    (∀ explicit, Effect.begin now.nextTransaction explicit ∉ now.effects) ∧
      now.nextTransaction ∉ committed now.effects ∧
      taken now.nextTransaction now.effects = [] ∧ passed now.nextTransaction now.effects = [] := by
  have absent (effect : Effect) (mem : effect ∈ now.effects) :
      effect.transaction ≠ some now.nextTransaction :=
    fun isTransaction => lt_irrefl _ (history.named effect mem _ isTransaction)
  refine ⟨fun explicit mem => absent _ mem rfl, fun mem => absent _ (mem_committed.mp mem) rfl, ?_, ?_⟩
  · unfold taken
    rw [filterMap_eq_nil_iff]
    intro effect mem
    have := absent effect mem
    cases effect with
    | next transaction row => cases transaction <;> cases row <;> simp_all [Effect.transaction]
    | _ => rfl
  · unfold passed
    rw [filterMap_eq_nil_iff]
    intro effect mem
    have := absent effect mem
    cases effect with
    | deliver transaction row => cases transaction <;> simp_all [Effect.transaction]
    | discard transaction row => cases transaction <;> simp_all [Effect.transaction]
    | _ => rfl

def BoltSession.Reads (session : BoltSession) (transaction : Option Nat) : Prop :=
  (∃ query, session.activeQuery = some query ∧ query.transaction = transaction) ∨
    (session.activeQuery = none ∧
      ∃ active, session.activeTransaction = some active ∧ active.transaction = transaction)

theorem Live.named (live : Live held now) (history : History now)
    (reads : now.session.Reads transaction) : ∀ found, transaction = some found → found < now.nextTransaction := by
  rintro found rfl
  rcases reads with ⟨query, isActive, isTransaction⟩ | ⟨-, active, isActive, isTransaction⟩
  · exact history.named _ (live.query query found isActive isTransaction).1 found rfl
  · exact history.named _ (live.transaction active found isActive isTransaction).1 found rfl

/-- A row effect on the transaction that the session reads, with the rows that it
leaves to be passed on. -/
theorem Live.row {held' : List Row} (live : Live held now)
    (reads : now.session.Reads transaction) (isRow : effect.isRow)
    (moves : ∀ found, transaction = some found → passed found now.effects ++ held = taken found now.effects →
      passed found (now.effects ++ [effect]) ++ held' = taken found (now.effects ++ [effect])) :
    Live held' (now.emitted effect) := by
  constructor
  · intro query found isActive isTransaction
    obtain ⟨begun, uncommitted, rows⟩ := live.query query found isActive isTransaction
    have same : transaction = some found := by
      rcases reads with ⟨other, isOther, rfl⟩ | ⟨none, -⟩
      · rw [show now.session.activeQuery = some query from isActive] at isOther
        cases isOther
        exact isTransaction
      · rw [show now.session.activeQuery = some query from isActive] at none
        cases none
    refine ⟨(begin_mem_row isRow).mpr begun, ?_, (moves found same rows.symm).symm⟩
    simpa [Work.emitted, committed_row isRow] using uncommitted
  · intro active found isActive isTransaction
    obtain ⟨begun, uncommitted⟩ := live.transaction active found isActive isTransaction
    exact ⟨(begin_mem_row isRow).mpr begun, by simpa [Work.emitted, committed_row isRow] using uncommitted⟩

theorem Live.next (live : Live held now) (reads : now.session.Reads transaction)
    (row : Option Row) : Live (held ++ row.toList) (now.emitted (.next transaction row)) := by
  apply live.row reads rfl
  rintro found rfl rows
  rw [taken_append, ← rows]
  cases row <;> simp [taken, passed]

theorem Live.pass {row : Row} (live : Live (row :: held) now)
    (reads : now.session.Reads transaction)
    (passes : effect = .deliver transaction row ∨ effect = .discard transaction row) :
    Live held (now.emitted effect) := by
  rcases passes with rfl | rfl
  all_goals
    apply live.row reads rfl
    rintro found rfl rows
    rw [taken_append, ← rows]
    simp [taken, passed]

end RocksGraph.Bolt
