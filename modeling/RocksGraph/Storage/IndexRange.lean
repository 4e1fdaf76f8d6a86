import RocksGraph.Storage.IndexSeek

/-! Range scans in a property index (`transaction.cc`, `vertex_iterator.cc`,
`edge_iterator.cc`).

A bound is the key of the values it is made from. The key of an entry of a
unique index is such a key itself, and that of any other index has the id behind
it; the scan compares with the first bytes of an entry's key only, as many as
the bound has. -/

set_option autoImplicit false

namespace RocksGraph.Storage

open Foundation List

structure RangeIndex where
  name : String
  indexId : BitVec 32
  unique : Bool
  properties : Nat

inductive IndexedKind where
  | vertex
  | edge
  deriving DecidableEq, Repr

def readEdgePropertyIndexEid (unique : Bool) (key value : Bytes) : Except Error (BitVec 64) := do
  if unique then
    check (value.length = 8) ⟨.storageEngineError, "edge unique index stores invalid eid size"⟩
    return BitVec.ofNat 64 (beValue value)
  else
    check (4 + 8 ≤ key.length) ⟨.storageEngineError, "edge non-unique index stores invalid key size"⟩
    return BitVec.ofNat 64 (beValue (key.drop (key.length - 8)))

def IndexedKind.readId : IndexedKind → (unique : Bool) → (key value : Bytes) → Except Error (BitVec 64)
  | .vertex => readPropertyIndexVid
  | .edge => readEdgePropertyIndexEid

def isRangeComparableValue : Value → Bool
  | .list _ | .entity .map _ => false
  | _ => true

namespace RangeIndex

def queryValues (index : RangeIndex) (query : Value) (argName : String) : Except Error (List Value) :=
  let count := index.properties
  let name := index.name
  if count = 1 then .ok [query]
  else match query with
    | .list items => do
      let given := items.length
      check (given = count) ⟨.invalidIndexQuery, s!"{argName} element count should be {count}, but {given} are given"⟩
      return items
    | _ => .error ⟨.invalidIndexQuery, s!"{argName} type should be List for composite index {name}"⟩

def rangeKey (index : RangeIndex) (bound : Option Value) (argName : String) : Except Error (Option Bytes) :=
  match bound with
  | none => .ok none
  | some bound => do
    let values ← index.queryValues bound argName
    check (values.all isRangeComparableValue)
      ⟨.invalidIndexQuery, s!"{argName} does not support LIST or MAP component"⟩
    return some (← indexKey index.indexId values)

/-- What the key of a bound is to be: none of no bound, and else the key of its values, which are the items of a list
unless the index has one property. -/
inductive BoundKey (index : RangeIndex) : Option Value → Option Bytes → Prop where
  | absent : BoundKey index none none
  | single {value : Value} {key : Bytes} : index.properties = 1 → isRangeComparableValue value →
      indexKey index.indexId [value] = .ok key → BoundKey index (some value) (some key)
  | composite {values : List Value} {key : Bytes} : index.properties ≠ 1 → values.length = index.properties →
      (∀ value ∈ values, isRangeComparableValue value) → indexKey index.indexId values = .ok key →
      BoundKey index (some (.list values)) (some key)

end RangeIndex

def isEmptyRange (lower upper : Option Bytes) (leftClosed rightClosed : Bool) : Bool :=
  match lower, upper with
  | some lower, some upper => decide (upper < lower) || (decide (lower = upper) && (!leftClosed || !rightClosed))
  | _, _ => false

/-- The key is in front of the range, as `SeekToNextValid` finds it. -/
def beforeRange (lower : Option Bytes) (leftClosed : Bool) (key : Bytes) : Bool :=
  lower.any fun bound => match compareKeyWithBoundPrefix key bound with
    | .lt => true
    | .eq => !leftClosed
    | .gt => false

def behindRange (upper : Option Bytes) (rightClosed : Bool) (key : Bytes) : Bool :=
  upper.any fun bound => match compareKeyWithBoundPrefix key bound with
    | .lt => false
    | .eq => !rightClosed
    | .gt => true

/-- The records at which a range iterator stops, from where it stands: `SeekToNextValid`, and again after each
`Next`. -/
def rangeRecords (start : Bytes) (before behind : Bytes → Bool) : List (Bytes × Bytes) → List (Bytes × Bytes)
  | [] => []
  | record :: rest =>
    if !start.isPrefixOf record.1 then []
    else if before record.1 then rangeRecords start before behind rest
    else if behind record.1 then []
    else record :: rangeRecords start before behind rest

/-- `VertexIndexRangeIterator` and `EdgeIndexRangeIterator`: the ids they yield, or the error they throw. -/
def IndexFamily.range (family : IndexFamily) (kind : IndexedKind) (index : RangeIndex) (lower upper : Option Bytes)
    (leftClosed rightClosed : Bool) : Except Error (List (BitVec 64)) :=
  let start := beWord index.indexId
  (rangeRecords start (beforeRange lower leftClosed) (behindRange upper rightClosed)
    (family.entries.dropWhile fun record => record.1 < lower.getD start)).mapM
      fun record => kind.readId index.unique record.1 record.2

/-- `QueryVertexByPropertyRange` and `QueryEdgeByPropertyRange` on a resolved index. -/
def IndexFamily.queryByPropertyRange (family : IndexFamily) (kind : IndexedKind) (index : RangeIndex)
    (lower upper : Option Value) (leftClosed rightClosed : Bool) : Except Error (List (BitVec 64)) := do
  let lowerKey ← index.rangeKey lower "lower"
  let upperKey ← index.rangeKey upper "upper"
  if isEmptyRange lowerKey upperKey leftClosed rightClosed then return []
  else family.range kind index lowerKey upperKey leftClosed rightClosed

structure WithinRange (lower upper : Option Bytes) (leftClosed rightClosed : Bool) (key : Bytes) : Prop where
  lower : ∀ bound ∈ lower, bound < key ∨ leftClosed ∧ bound = key
  upper : ∀ bound ∈ upper, key < bound ∨ rightClosed ∧ key = bound

variable {bound : Bytes} {upper : Option Bytes} {rightClosed : Bool} {records : List (Bytes × Bytes)}

theorem behindRange_mono {first second : Bytes} (less : first < second)
    (behind : behindRange upper rightClosed first) : behindRange upper rightClosed second := by
  cases upper with
  | none => cases behind
  | some bound =>
    simp only [behindRange, Option.any_some] at behind ⊢
    have ahead : compareKeyWithBoundPrefix first bound = .gt → compareKeyWithBoundPrefix second bound = .gt :=
      compareKeyWithBoundPrefix_gt less
    have reached : compareKeyWithBoundPrefix first bound ≠ .lt → compareKeyWithBoundPrefix second bound ≠ .lt := by
      rw [Ne, Ne, compareKeyWithBoundPrefix_lt, compareKeyWithBoundPrefix_lt]
      exact mt (List.lt_trans less)
    cases place : compareKeyWithBoundPrefix first bound <;> rw [place] at behind ahead reached
    · cases behind
    · cases later : compareKeyWithBoundPrefix second bound with
      | lt => exact absurd later (reached (by decide))
      | eq => exact behind
      | gt => rfl
    · rw [ahead rfl]

theorem rangeRecords_eq_filter {start : Bytes} {before : Bytes → Bool}
    (sorted : records.Pairwise fun first second => first.1 < second.1)
    (reached : ∀ record ∈ records, compareKeyWithBoundPrefix record.1 start ≠ .lt) :
    rangeRecords start before (behindRange upper rightClosed) records = records.filter fun record =>
      start.isPrefixOf record.1 && !before record.1 && !behindRange upper rightClosed record.1 := by
  induction records with
  | nil => rfl
  | cons record rest ih =>
    obtain ⟨below, sortedRest⟩ := pairwise_cons.mp sorted
    obtain ⟨here, later⟩ := forall_mem_cons.mp reached
    rw [rangeRecords, ih sortedRest later]
    by_cases inside : start.isPrefixOf record.1
    · by_cases early : before record.1
      · simp [inside, early]
      by_cases late : behindRange upper rightClosed record.1
      · have none : ∀ other ∈ rest, behindRange upper rightClosed other.1 := fun other mem =>
          behindRange_mono (below other mem) late
        simp only [inside, early, late, Bool.not_true, Bool.false_eq_true, if_false, if_true, Bool.and_false,
          filter_cons_of_neg, not_false_eq_true]
        rw [eq_comm, filter_eq_nil_iff]
        intro other mem
        simp [none other mem]
      · simp [inside, early, late]
    · -- the first key of a higher index ends the scan
      have beyond : compareKeyWithBoundPrefix record.1 start = .gt := by
        have outside := mt isPrefixOf_iff_prefix.mpr inside
        rw [← compareKeyWithBoundPrefix_eq] at outside
        cases place : compareKeyWithBoundPrefix record.1 start <;> simp_all
      have none : ∀ other ∈ rest, start.isPrefixOf other.1 = false := by
        intro other mem
        have ahead := compareKeyWithBoundPrefix_gt (below other mem) beyond
        rw [Bool.eq_false_iff, Ne, isPrefixOf_iff_prefix, ← compareKeyWithBoundPrefix_eq, ahead]
        decide
      simp only [inside, Bool.not_false, if_true, Bool.false_and, Bool.false_eq_true, not_false_eq_true,
        filter_cons_of_neg]
      rw [eq_comm, filter_eq_nil_iff]
      intro other mem
      simp [none other mem]

theorem rangeRecords_dropWhile {start : Bytes} {lower : Option Bytes} {leftClosed : Bool}
    (sorted : records.Pairwise fun first second => first.1 < second.1)
    (inIndex : ∀ bound ∈ lower, start <+: bound) :
    rangeRecords start (beforeRange lower leftClosed) (behindRange upper rightClosed)
      (records.dropWhile fun record => record.1 < lower.getD start) = records.filter fun record =>
        start.isPrefixOf record.1 && !beforeRange lower leftClosed record.1 &&
          !behindRange upper rightClosed record.1 := by
  have seek_ge : ∀ key : Bytes, key < start → key < lower.getD start := by
    intro key below
    cases lower with
    | none => exact below
    | some bound =>
      obtain ⟨tail, rfl⟩ := inIndex bound rfl
      exact Std.lt_of_lt_of_le below le_append_left
  induction records with
  | nil => rfl
  | cons record rest ih =>
    obtain ⟨below, sortedRest⟩ := pairwise_cons.mp sorted
    by_cases early : record.1 < lower.getD start
    · have passed : (start.isPrefixOf record.1 && !beforeRange lower leftClosed record.1) = false := by
        rw [← compareKeyWithBoundPrefix_lt] at early
        cases lower with
        | none =>
          have outside : ¬ start <+: record.1 := by
            rw [← compareKeyWithBoundPrefix_eq, show compareKeyWithBoundPrefix record.1 start = .lt from early]
            decide
          simp [outside]
        | some bound =>
          simp [beforeRange, show compareKeyWithBoundPrefix record.1 bound = .lt from early]
      rw [dropWhile_cons_of_pos (by simpa using early), ih sortedRest,
        filter_cons_of_neg (by simp [passed])]
    · rw [dropWhile_cons_of_neg (by simpa using early)]
      refine rangeRecords_eq_filter sorted fun other mem => ?_
      rw [Ne, compareKeyWithBoundPrefix_lt]
      intro under
      rcases mem_cons.mp mem with rfl | mem
      · exact early (seek_ge _ under)
      · exact early (List.lt_trans (below other mem) (seek_ge _ under))

variable {key : Bytes}

theorem append_lt_iff (apart : ¬ key <+: bound) (tail : Bytes) :
    key ++ tail < bound ↔ key < bound := by
  induction key generalizing bound with
  | nil => exact absurd nil_prefix apart
  | cons byte key ih =>
    cases bound with
    | nil => simp
    | cons other bound =>
      rw [cons_append, cons_lt_cons_iff, cons_lt_cons_iff]
      rw [cons_prefix_cons] at apart
      by_cases same : byte = other
      · rw [ih fun begins => apart ⟨same, begins⟩]
      · simp [same]

theorem compareKeyWithBoundPrefix_entry {indexId : BitVec 32} {values given : List Value}
    (length : values.length = given.length) (sized : ∀ value ∈ values, value.sized)
    (givenSized : ∀ value ∈ given, value.sized) (done : indexKey indexId values = .ok key)
    (boundDone : indexKey indexId given = .ok bound) (tail : Bytes) :
    compareKeyWithBoundPrefix (key ++ tail) bound = .lt ∧ key < bound ∨
      compareKeyWithBoundPrefix (key ++ tail) bound = .eq ∧ key = bound ∨
      compareKeyWithBoundPrefix (key ++ tail) bound = .gt ∧ bound < key := by
  have same_of_values (same : values = given) : key = bound := by
    rw [same, boundDone] at done
    exact (Except.ok.inj done).symm
  have apart (differs : key ≠ bound) : ¬ key <+: bound := by
    intro begins
    rw [← append_nil bound] at begins
    exact differs (same_of_values (indexKey_prefix_inj length sized givenSized done boundDone begins))
  cases place : compareKeyWithBoundPrefix (key ++ tail) bound with
  | lt =>
    rw [compareKeyWithBoundPrefix_lt] at place
    have differs : key ≠ bound := fun same => List.not_lt.mpr le_append_left (same ▸ place)
    exact .inl ⟨rfl, (append_lt_iff (apart differs) tail).mp place⟩
  | eq =>
    rw [compareKeyWithBoundPrefix_eq] at place
    exact .inr (.inl ⟨rfl, same_of_values (indexKey_prefix_inj length.symm givenSized sized boundDone done place).symm⟩)
  | gt =>
    refine .inr (.inr ⟨rfl, ?_⟩)
    have notEqual : ¬ bound <+: key ++ tail := by
      rw [← compareKeyWithBoundPrefix_eq, place]
      decide
    have notBelow : ¬ key ++ tail < bound := by
      rw [← compareKeyWithBoundPrefix_lt, place]
      decide
    by_contra notLess
    rcases Std.le_iff_lt_or_eq.mp (List.not_lt.mp notLess) with below | rfl
    · have differs : key ≠ bound := fun same => List.lt_irrefl _ (same ▸ below)
      exact notBelow ((append_lt_iff (apart differs) tail).mpr below)
    · exact notEqual (prefix_append _ _)

theorem exists_map_eq {Source Result : Type} {change : Source → Result} {p : Source → Prop}
    {results : List Result} (each : ∀ result ∈ results, ∃ value, p value ∧ change value = result) :
    ∃ values : List Source, (∀ value ∈ values, p value) ∧ values.map change = results := by
  induction results with
  | nil => exact ⟨[], by simp, rfl⟩
  | cons result rest ih =>
    obtain ⟨⟨value, holds, rfl⟩, others⟩ := forall_mem_cons.mp each
    obtain ⟨values, all, rfl⟩ := ih others
    exact ⟨value :: values, forall_mem_cons.mpr ⟨holds, all⟩, rfl⟩

section Range

variable {family : IndexFamily} {index : RangeIndex} {entries : List IndexEntry}
  {lower upper : Option Value} {lowerKey upperKey : Option Bytes} {leftClosed rightClosed : Bool}

theorem RangeIndex.BoundKey.rangeKey {bound : Option Value} {boundKey : Option Bytes}
    (built : index.BoundKey bound boundKey) (argName : String) : index.rangeKey bound argName = .ok boundKey := by
  cases built with
  | absent => rfl
  | single one comparable done =>
    simp only [RangeIndex.rangeKey, bind_eq_ok, check_eq_ok, pure_eq_ok, exists_const]
    exact ⟨_, by simp [queryValues, one], by simpa using comparable, _, done, rfl⟩
  | composite several count comparable done =>
    simp only [RangeIndex.rangeKey, bind_eq_ok, check_eq_ok, pure_eq_ok, exists_const]
    exact ⟨_, by simp [queryValues, several, count, check], by simpa using comparable, _, done, rfl⟩

theorem RangeIndex.BoundKey.given {bound : Option Value} {boundKey : Option Bytes}
    (sized : ∀ value ∈ bound, value.sized) (built : index.BoundKey bound boundKey) :
    ∀ key ∈ boundKey, ∃ given, given.length = index.properties ∧ (∀ value ∈ given, value.sized) ∧
      indexKey index.indexId given = .ok key := by
  cases built with
  | absent => simp
  | single one _ done =>
    rintro _ ⟨⟩
    exact ⟨[_], one.symm, by simpa using sized, done⟩
  | composite _ count _ done =>
    rintro _ ⟨⟩
    have listed := sized _ rfl
    rw [Value.sized, Bool.and_eq_true] at listed
    exact ⟨_, count, Value.sizedList_iff.mp listed.2, done⟩

theorem inRange_iff {values : List Value} (length : values.length = index.properties)
    (sized : ∀ value ∈ values, value.sized) (done : indexKey index.indexId values = .ok key)
    (lowerSized : ∀ value ∈ lower, value.sized) (upperSized : ∀ value ∈ upper, value.sized)
    (lowerBuilt : index.BoundKey lower lowerKey) (upperBuilt : index.BoundKey upper upperKey) (tail : Bytes) :
    (beforeRange lowerKey leftClosed (key ++ tail) = false ∧ behindRange upperKey rightClosed (key ++ tail) = false) ↔
      WithinRange lowerKey upperKey leftClosed rightClosed key := by
  have lowerPart : beforeRange lowerKey leftClosed (key ++ tail) = false ↔
      ∀ bound ∈ lowerKey, bound < key ∨ leftClosed ∧ bound = key := by
    cases lowerKey with
    | none => simp [beforeRange]
    | some bound =>
      obtain ⟨given, count, givenSized, boundDone⟩ := lowerBuilt.given lowerSized bound rfl
      rcases compareKeyWithBoundPrefix_entry (length.trans count.symm) sized givenSized done boundDone tail with
        ⟨place, below⟩ | ⟨place, rfl⟩ | ⟨place, above⟩
      · have apart : bound ≠ key := fun same => List.lt_irrefl _ (same ▸ below)
        simp [beforeRange, place, List.lt_asymm below, apart]
      · simp [beforeRange, place]
      · simp [beforeRange, place, above]
  have upperPart : behindRange upperKey rightClosed (key ++ tail) = false ↔
      ∀ bound ∈ upperKey, key < bound ∨ rightClosed ∧ key = bound := by
    cases upperKey with
    | none => simp [behindRange]
    | some bound =>
      obtain ⟨given, count, givenSized, boundDone⟩ := upperBuilt.given upperSized bound rfl
      rcases compareKeyWithBoundPrefix_entry (length.trans count.symm) sized givenSized done boundDone tail with
        ⟨place, below⟩ | ⟨place, rfl⟩ | ⟨place, above⟩
      · simp [behindRange, place, below]
      · simp [behindRange, place]
      · have apart : key ≠ bound := fun same => List.lt_irrefl _ (same ▸ above)
        simp [behindRange, place, List.lt_asymm above, apart]
  rw [lowerPart, upperPart]
  exact ⟨fun ⟨first, second⟩ => ⟨first, second⟩, fun within => ⟨within.lower, within.upper⟩⟩

theorem not_within_of_isEmptyRange (empty : isEmptyRange lowerKey upperKey leftClosed rightClosed) :
    ¬ WithinRange lowerKey upperKey leftClosed rightClosed key := by
  rintro ⟨above, below⟩
  cases lowerKey with
  | none => cases empty
  | some lower =>
    cases upperKey with
    | none => cases empty
    | some upper =>
      simp only [isEmptyRange, Bool.or_eq_true, Bool.and_eq_true, decide_eq_true_eq] at empty
      have crossed (less : lower < upper) : False := by
        rcases empty with crossed | ⟨rfl, -⟩
        · exact List.lt_asymm less crossed
        · exact List.lt_irrefl _ less
      rcases above lower rfl with above | ⟨leftIsClosed, rfl⟩ <;>
        rcases below upper rfl with below | ⟨rightIsClosed, rfl⟩
      · exact crossed (List.lt_trans above below)
      · exact crossed above
      · exact crossed below
      · simp [leftIsClosed, rightIsClosed, List.lt_irrefl] at empty

variable {indexId : BitVec 32} {unique : Bool} {entry : IndexEntry} {record : Bytes × Bytes}

theorem readId_record (kind : IndexedKind) (written : entry.record indexId unique = .ok record) :
    kind.readId unique record.1 record.2 = .ok entry.id := by
  have vertex : readPropertyIndexVid unique record.1 record.2 = .ok entry.id := by
    cases unique with
    | true =>
      obtain ⟨-, stored⟩ := record_unique.mp written
      rw [stored]
      exact readPropertyIndexVid_beWord _ _
    | false => exact readPropertyIndexVid_entryKey (record_plain.mp written).1 _
  cases kind with
  | vertex => exact vertex
  | edge =>
    -- the two readers differ in their texts only
    unfold IndexedKind.readId
    cases unique <;> simpa only [readEdgePropertyIndexEid, readPropertyIndexVid, Bool.false_eq_true, if_true, if_false,
      bind_eq_ok, check_eq_ok] using vertex

theorem record_key (written : entry.record indexId unique = .ok record) :
    ∃ key, indexKey indexId entry.values = .ok key ∧ record.1 = key ++ if unique then [] else beWord entry.id := by
  cases unique with
  | true => exact ⟨record.1, (record_unique.mp written).1, (append_nil _).symm⟩
  | false =>
    obtain ⟨key, done, same⟩ := entryKey_eq_ok.mp (record_plain.mp written).1
    exact ⟨key, done, same⟩

theorem IndexFamily.Holds.entry_eq_of_record
    (holds : family.Holds index.indexId index.unique index.properties entries)
    {first second : IndexEntry} (left : first ∈ entries) (right : second ∈ entries)
    (firstWritten : first.record index.indexId index.unique = .ok record)
    (secondWritten : second.record index.indexId index.unique = .ok record) : first = second := by
  have sameId : first.id = second.id := by
    have read := readId_record .vertex firstWritten
    rw [readId_record .vertex secondWritten] at read
    exact (Except.ok.inj read).symm
  obtain ⟨key, done, same⟩ := record_key firstWritten
  obtain ⟨other, otherDone, otherSame⟩ := record_key secondWritten
  have begins : key <+: other ++ if index.unique then [] else beWord second.id := by
    rw [← otherSame, same]
    exact prefix_append _ _
  have sameValues := indexKey_prefix_inj ((holds.length first left).trans (holds.length second right).symm)
    (holds.sized first left) (holds.sized second right) done otherDone begins
  obtain ⟨values, id⟩ := first
  cases sameId
  cases sameValues
  rfl

theorem mapM_readId (kind : IndexedKind) {found : List IndexEntry} :
    ∀ {records : List (Bytes × Bytes)}, found.map (·.record indexId unique) = records.map .ok →
      (records.mapM fun record => kind.readId unique record.1 record.2) = .ok (found.map (·.id)) := by
  induction found with
  | nil =>
    intro records same
    cases records with
    | nil => rfl
    | cons => cases same
  | cons entry rest ih =>
    intro records same
    cases records with
    | nil => cases same
    | cons record others =>
      obtain ⟨written, same⟩ := cons.inj same
      rw [mapM_cons, readId_record kind written, ih same]
      rfl

section

variable (holds : family.Holds index.indexId index.unique index.properties entries)
include holds

theorem IndexFamily.Holds.entries_of_records (kind : IndexedKind)
    {p : IndexEntry → Prop} (keyed : ∀ entry, p entry → ∃ key, indexKey index.indexId entry.values = .ok key)
    {records : List (Bytes × Bytes)} (distinct : records.Nodup)
    (mem_records : ∀ record, record ∈ records ↔
      ∃ entry ∈ entries, entry.record index.indexId index.unique = .ok record ∧ p entry) :
    ∃ found : List IndexEntry, found.Nodup ∧ (∀ entry, entry ∈ found ↔ entry ∈ entries ∧ p entry) ∧
      (records.mapM fun record => kind.readId index.unique record.1 record.2) = .ok (found.map (·.id)) := by
  have each : ∀ result ∈ records.map Except.ok, ∃ entry : IndexEntry, (entry ∈ entries ∧ p entry) ∧
      entry.record index.indexId index.unique = result := by
    intro result mem
    obtain ⟨record, listed, rfl⟩ := mem_map.mp mem
    obtain ⟨entry, inside, written, holdsP⟩ := (mem_records record).mp listed
    exact ⟨entry, ⟨inside, holdsP⟩, written⟩
  obtain ⟨found, inside, same⟩ := exists_map_eq each
  refine ⟨found, ?_, fun entry => ⟨inside entry, ?_⟩, mapM_readId kind same⟩
  · apply List.Nodup.of_map (·.record index.indexId index.unique)
    rw [same]
    exact distinct.map fun _ _ => Except.ok.inj
  · rintro ⟨mem, holdsP⟩
    obtain ⟨key, done⟩ := keyed entry holdsP
    obtain ⟨record, written⟩ : ∃ record, entry.record index.indexId index.unique = .ok record := by
      cases index.unique with
      | true => exact ⟨(key, beWord entry.id), record_unique.mpr ⟨done, rfl⟩⟩
      | false => exact ⟨(key ++ beWord entry.id, []), record_plain.mpr ⟨entryKey_eq_ok.mpr ⟨key, done, rfl⟩, rfl⟩⟩
    have listed : Except.ok record ∈ found.map (·.record index.indexId index.unique) := by
      rw [same]
      exact mem_map_of_mem ((mem_records record).mpr ⟨entry, mem, written, holdsP⟩)
    obtain ⟨other, otherFound, otherWritten⟩ := mem_map.mp listed
    rwa [holds.entry_eq_of_record mem (inside other otherFound).1 written otherWritten]

theorem IndexFamily.Holds.mem_range
    (lowerSized : ∀ value ∈ lower, value.sized) (upperSized : ∀ value ∈ upper, value.sized)
    (lowerBuilt : index.BoundKey lower lowerKey) (upperBuilt : index.BoundKey upper upperKey) :
    record ∈ family.entries.filter (fun record => (beWord index.indexId).isPrefixOf record.1 &&
        !beforeRange lowerKey leftClosed record.1 && !behindRange upperKey rightClosed record.1) ↔
      ∃ entry ∈ entries, entry.record index.indexId index.unique = .ok record ∧
        ∃ key, indexKey index.indexId entry.values = .ok key ∧ WithinRange lowerKey upperKey leftClosed rightClosed key := by
  have place {entry : IndexEntry} (inside : entry ∈ entries)
      (written : entry.record index.indexId index.unique = .ok record) :
      ∃ key, indexKey index.indexId entry.values = .ok key ∧
        (beforeRange lowerKey leftClosed record.1 = false ∧ behindRange upperKey rightClosed record.1 = false ↔
          WithinRange lowerKey upperKey leftClosed rightClosed key) := by
    obtain ⟨key, done, same⟩ := record_key written
    rw [same]
    exact ⟨key, done, inRange_iff (holds.length entry inside) (holds.sized entry inside) done lowerSized upperSized
      lowerBuilt upperBuilt _⟩
  simp only [mem_filter, Bool.and_eq_true, Bool.not_eq_true', isPrefixOf_iff_prefix]
  constructor
  · rintro ⟨mem, ⟨begins, early⟩, late⟩
    obtain ⟨entry, inside, written⟩ := (holds.stored record).mp ⟨mem, begins⟩
    obtain ⟨key, done, within⟩ := place inside written
    exact ⟨entry, inside, written, key, done, within.mp ⟨early, late⟩⟩
  · rintro ⟨entry, inside, written, key, done, within⟩
    obtain ⟨mem, begins⟩ := (holds.stored record).mpr ⟨entry, inside, written⟩
    obtain ⟨other, otherDone, same⟩ := place inside written
    rw [done] at otherDone
    cases otherDone
    obtain ⟨early, late⟩ := same.mpr within
    exact ⟨mem, ⟨begins, early⟩, late⟩

end

/-- A range query yields the entries of its index whose key lies between the keys of the bounds' values, each of them
once. -/
theorem IndexFamily.Holds.range_exact (holds : family.Holds index.indexId index.unique index.properties entries)
    (lowerSized : ∀ value ∈ lower, value.sized) (upperSized : ∀ value ∈ upper, value.sized)
    (lowerBuilt : index.BoundKey lower lowerKey) (upperBuilt : index.BoundKey upper upperKey)
    (kind : IndexedKind) (leftClosed rightClosed : Bool) : ∃ found : List IndexEntry, found.Nodup ∧
      (∀ entry, entry ∈ found ↔ entry ∈ entries ∧ ∃ key, indexKey index.indexId entry.values = .ok key ∧
        WithinRange lowerKey upperKey leftClosed rightClosed key) ∧
      family.queryByPropertyRange kind index lower upper leftClosed rightClosed = .ok (found.map (·.id)) := by
  simp only [queryByPropertyRange, lowerBuilt.rangeKey, upperBuilt.rangeKey]
  by_cases empty : isEmptyRange lowerKey upperKey leftClosed rightClosed
  · refine ⟨[], nodup_nil, fun entry => ⟨nofun, ?_⟩, if_pos empty⟩
    rintro ⟨-, key, -, within⟩
    exact absurd within (not_within_of_isEmptyRange empty)
  · have inIndex : ∀ bound ∈ lowerKey, beWord index.indexId <+: bound := by
      intro bound mem
      obtain ⟨given, -, -, boundDone⟩ := lowerBuilt.given lowerSized bound mem
      obtain ⟨encoded, -, rfl⟩ := indexKey_eq_ok.mp boundDone
      exact prefix_append _ _
    let passed := family.entries.filter fun record => (beWord index.indexId).isPrefixOf record.1 &&
      !beforeRange lowerKey leftClosed record.1 && !behindRange upperKey rightClosed record.1
    have stops : rangeRecords (beWord index.indexId) (beforeRange lowerKey leftClosed) (behindRange upperKey rightClosed)
        (family.entries.dropWhile fun record => record.1 < lowerKey.getD (beWord index.indexId)) = passed :=
      rangeRecords_dropWhile family.sorted inIndex
    have distinct : family.entries.Nodup := family.keys_apart.imp fun apart same => apart (congrArg Prod.fst same)
    have keyed : ∀ entry : IndexEntry, (∃ key, indexKey index.indexId entry.values = .ok key ∧
        WithinRange lowerKey upperKey leftClosed rightClosed key) →
          ∃ key, indexKey index.indexId entry.values = .ok key := fun _ ⟨key, done, _⟩ => ⟨key, done⟩
    obtain ⟨found, nodup, mem_found, read⟩ := holds.entries_of_records kind keyed (distinct.filter _)
      fun record => holds.mem_range lowerSized upperSized lowerBuilt upperBuilt
    refine ⟨found, nodup, mem_found, (if_neg empty).trans ?_⟩
    simp only [IndexFamily.range, stops]
    exact read

end Range

def namedIndex : RangeIndex := ⟨"named", 7, false, 2⟩

def namedUpper : Bytes := [0, 0, 0, 7, 4, 98, 0, 0, 2, 128, 0, 0, 0, 0, 0, 0, 1]

/-- Between the two bounds, both open and both keys of entries, is the vertex 3. -/
theorem range_exact_named :
    namedFamily.queryByPropertyRange .vertex namedIndex (some (.list [.string [0], .integer 5]))
      (some (.list [.string [98], .integer 1])) false false = .ok [3] := by
  have lowerBuilt : namedIndex.BoundKey (some (.list [.string [0], .integer 5])) (some namedKey) :=
    .composite (by decide) rfl (by decide) (by decide +kernel)
  have upperBuilt : namedIndex.BoundKey (some (.list [.string [98], .integer 1])) (some namedUpper) :=
    .composite (by decide) rfl (by decide) (by decide +kernel)
  have holds : namedFamily.Holds namedIndex.indexId namedIndex.unique namedIndex.properties namedEntries :=
    namedFamily_holds
  obtain ⟨found, distinct, mem_found, done⟩ := holds.range_exact (by simp [Value.sized, Value.sizedList])
    (by simp [Value.sized, Value.sizedList]) lowerBuilt upperBuilt .vertex false false
  let third : IndexEntry := ⟨[.string [0], .integer 6], 3⟩
  have between : namedEntries.filter (fun entry => match indexKey 7 entry.values with
      | .ok key => namedKey < key && key < namedUpper
      | .error _ => false) = [third] := by rfl
  have only : ∀ entry, entry ∈ found ↔ entry ∈ [third] := by
    intro entry
    rw [← between, mem_filter, mem_found]
    refine and_congr_right fun _ => ?_
    have open_iff (key : Bytes) : WithinRange (some namedKey) (some namedUpper) false false key ↔
        namedKey < key ∧ key < namedUpper :=
      ⟨fun within => by simpa using And.intro (within.lower _ rfl) (within.upper _ rfl),
        fun ⟨low, high⟩ => ⟨by simpa using low, by simpa using high⟩⟩
    have indexId : namedIndex.indexId = 7 := rfl
    rw [indexId]
    cases indexKey 7 entry.values <;> simp [open_iff]
  have exact : found.Perm [third] := (perm_ext_iff_of_nodup distinct (nodup_singleton _)).mpr only
  rw [done, perm_singleton.mp exact]
  rfl

end RocksGraph.Storage
