import Mathlib.Data.List.Pairwise
import Mathlib.Data.List.Sort
import RocksGraph.Storage.PropertyIndexKey

/-! Seeks in a property index (`index.cc`, `vertex_iterator.cc`).

The entries of all indexes lie in one column family, ordered by key. A seek
starts at the key of the values it looks for and ends at the first key that does
not begin with it. The entry of a unique index has the entity id as its value,
and that of any other index has it as the last eight bytes of its key. -/

set_option autoImplicit false

namespace RocksGraph.Storage

open Foundation List

def entryKey (indexId : BitVec 32) (values : List Value) (id : BitVec 64) : Except Error Bytes := do
  let key ← indexKey indexId values
  return key ++ beWord id

/-- `CompareKeyWithBoundPrefix`: a key that begins with the bound compares equal to it. -/
def compareKeyWithBoundPrefix : (key bound : Bytes) → Ordering
  | _, [] => .eq
  | [], _ :: _ => .lt
  | byte :: key, other :: bound =>
    if byte < other then .lt else if other < byte then .gt else compareKeyWithBoundPrefix key bound

def readPropertyIndexVid (unique : Bool) (key value : Bytes) : Except Error (BitVec 64) := do
  if unique then
    check (value.length = 8) ⟨.storageEngineError, "vertex unique index stores invalid vid size"⟩
    return BitVec.ofNat 64 (beValue value)
  else
    check (4 + 8 ≤ key.length) ⟨.storageEngineError, "vertex non-unique index stores invalid key size"⟩
    return BitVec.ofNat 64 (beValue (key.drop (key.length - 8)))

structure IndexFamily where
  entries : List (Bytes × Bytes)
  sorted : entries.Pairwise fun first second => first.1 < second.1

/-- `VertexIndexSeekIterator`: the ids it yields, or the error it throws. -/
def IndexFamily.seek (family : IndexFamily) (unique : Bool) (start : Bytes) : Except Error (List (BitVec 64)) :=
  if unique then
    match family.entries.lookup start with
    | some value => do return [← readPropertyIndexVid unique start value]
    | none => .ok []
  else
    ((family.entries.dropWhile fun entry => entry.1 < start).takeWhile fun entry => start.isPrefixOf entry.1).mapM
      fun entry => readPropertyIndexVid unique entry.1 entry.2

variable {bound key : Bytes} {indexId : BitVec 32} {values : List Value}

theorem compareKeyWithBoundPrefix_eq :
    compareKeyWithBoundPrefix key bound = .eq ↔ bound <+: key := by
  induction bound generalizing key with
  | nil => simp [compareKeyWithBoundPrefix]
  | cons other bound ih =>
    cases key with
    | nil => simp [compareKeyWithBoundPrefix]
    | cons byte key =>
      rw [compareKeyWithBoundPrefix, cons_prefix_cons, ← ih]
      by_cases below : byte < other
      · simp [below, (UInt8.ne_of_lt below).symm]
      by_cases above : other < byte
      · simp [below, above, UInt8.ne_of_lt above]
      · have same : other = byte := UInt8.le_antisymm (UInt8.not_lt.mp below) (UInt8.not_lt.mp above)
        simp [same]

theorem compareKeyWithBoundPrefix_lt : compareKeyWithBoundPrefix key bound = .lt ↔ key < bound := by
  induction bound generalizing key with
  | nil => simp [compareKeyWithBoundPrefix]
  | cons other bound ih =>
    cases key with
    | nil => simp [compareKeyWithBoundPrefix]
    | cons byte key =>
      rw [compareKeyWithBoundPrefix, cons_lt_cons_iff, ← ih]
      by_cases below : byte < other
      · simp [below]
      by_cases above : other < byte
      · simp [above, (UInt8.ne_of_lt above).symm]
      · have same : byte = other := UInt8.le_antisymm (UInt8.not_lt.mp above) (UInt8.not_lt.mp below)
        simp [same]

theorem compareKeyWithBoundPrefix_gt {first second : Bytes} (less : first < second)
    (above : compareKeyWithBoundPrefix first bound = .gt) : compareKeyWithBoundPrefix second bound = .gt := by
  induction bound generalizing first second with
  | nil => simp [compareKeyWithBoundPrefix] at above
  | cons other bound ih =>
    cases first with
    | nil => simp [compareKeyWithBoundPrefix] at above
    | cons byte first =>
      cases second with
      | nil => exact absurd less (not_lt_nil _)
      | cons next second =>
        rw [compareKeyWithBoundPrefix] at above ⊢
        rw [cons_lt_cons_iff] at less
        have notBelow : ¬ byte < other := fun below => by simp [below] at above
        rw [if_neg notBelow] at above
        rcases less with up | ⟨rfl, less⟩
        · have beyond : other < next := UInt8.lt_of_le_of_lt (UInt8.not_lt.mp notBelow) up
          rw [if_neg (UInt8.not_lt.mpr (UInt8.le_of_lt beyond)), if_pos beyond]
        · rw [if_neg notBelow]
          split
          · rfl
          rename_i notAbove
          rw [if_neg notAbove] at above
          exact ih less above

theorem takeWhile_dropWhile_eq_filter {entries : List (Bytes × Bytes)}
    (sorted : entries.Pairwise fun first second => first.1 < second.1) (start : Bytes) :
    ((entries.dropWhile fun entry => entry.1 < start).takeWhile fun entry => start.isPrefixOf entry.1) =
      entries.filter fun entry => start.isPrefixOf entry.1 := by
  induction entries with
  | nil => rfl
  | cons entry rest ih =>
    obtain ⟨below, sortedRest⟩ := pairwise_cons.mp sorted
    by_cases less : entry.1 < start
    · have outside : ¬ start <+: entry.1 := by
        rw [← compareKeyWithBoundPrefix_eq, compareKeyWithBoundPrefix_lt.mpr less]
        decide
      rw [dropWhile_cons_of_pos (by simpa using less), ih sortedRest,
        filter_cons_of_neg (by simpa using outside)]
    · rw [dropWhile_cons_of_neg (by simpa using less)]
      by_cases inside : start <+: entry.1
      · have reached : (rest.dropWhile fun other => other.1 < start) = rest := by
          cases rest with
          | nil => rfl
          | cons next others =>
            have notLess : ¬ next.1 < start := fun under =>
              less (List.lt_trans (below next mem_cons_self) under)
            exact dropWhile_cons_of_neg (by simpa using notLess)
        rw [reached] at ih
        rw [takeWhile_cons_of_pos (by simpa using inside), ih sortedRest,
          filter_cons_of_pos (by simpa using inside)]
      · have above : compareKeyWithBoundPrefix entry.1 start = .gt := by
          rw [← compareKeyWithBoundPrefix_lt] at less
          rw [← compareKeyWithBoundPrefix_eq] at inside
          cases found : compareKeyWithBoundPrefix entry.1 start <;> simp_all
        have none : rest.filter (fun other => start.isPrefixOf other.1) = [] := by
          rw [filter_eq_nil_iff]
          intro other mem start'
          have beyond := compareKeyWithBoundPrefix_gt (below other mem) above
          rw [List.isPrefixOf_iff_prefix, ← compareKeyWithBoundPrefix_eq, beyond] at start'
          cases start'
        rw [takeWhile_cons_of_neg (by simpa using inside), filter_cons_of_neg (by simpa using inside), none]

structure IndexEntry where
  values : List Value
  id : BitVec 64

/-- What `UpdateIndexDirect` and `ApplyBuildUpdate` put for an entry. -/
def IndexEntry.record (indexId : BitVec 32) (unique : Bool) (entry : IndexEntry) : Except Error (Bytes × Bytes) :=
  if unique then do return (← indexKey indexId entry.values, beWord entry.id)
  else do return (← entryKey indexId entry.values entry.id, [])

/-- The records under an index id are those of its entries, which have a value for each of its properties. -/
structure IndexFamily.Holds (family : IndexFamily) (indexId : BitVec 32) (unique : Bool) (properties : Nat)
    (entries : List IndexEntry) : Prop where
  length : ∀ entry ∈ entries, entry.values.length = properties
  sized : ∀ entry ∈ entries, ∀ value ∈ entry.values, value.sized
  stored : ∀ record, record ∈ family.entries ∧ beWord indexId <+: record.1 ↔
    ∃ entry ∈ entries, entry.record indexId unique = .ok record

theorem indexKey_eq_ok :
    indexKey indexId values = .ok key ↔
      ∃ encoded, propertyIndexValues values = .ok encoded ∧ key = beWord indexId ++ encoded := by
  simp only [indexKey, bind_eq_ok, pure_eq_ok]

theorem entryKey_eq_ok {id : BitVec 64} :
    entryKey indexId values id = .ok key ↔ ∃ start, indexKey indexId values = .ok start ∧ key = start ++ beWord id := by
  simp only [entryKey, bind_eq_ok, pure_eq_ok]

variable {record : Bytes × Bytes}

theorem record_unique {entry : IndexEntry} : entry.record indexId true = .ok record ↔
      indexKey indexId entry.values = .ok record.1 ∧ record.2 = beWord entry.id := by
  obtain ⟨key, value⟩ := record
  simp only [IndexEntry.record, if_true, bind_eq_ok, pure_eq_ok, Prod.mk.injEq]
  constructor
  · rintro ⟨_, done, rfl, rfl⟩
    exact ⟨done, rfl⟩
  · rintro ⟨done, rfl⟩
    exact ⟨key, done, rfl, rfl⟩

theorem record_plain {entry : IndexEntry} :
    entry.record indexId false = .ok record ↔ entryKey indexId entry.values entry.id = .ok record.1 ∧ record.2 = [] := by
  obtain ⟨key, value⟩ := record
  simp only [IndexEntry.record, Bool.false_eq_true, if_false, bind_eq_ok, pure_eq_ok, Prod.mk.injEq]
  constructor
  · rintro ⟨_, done, rfl, rfl⟩
    exact ⟨done, rfl⟩
  · rintro ⟨done, rfl⟩
    exact ⟨key, done, rfl, rfl⟩

theorem indexKey_prefix_inj {first second : List Value} {start : Bytes}
    (length : first.length = second.length) (firstSized : ∀ value ∈ first, value.sized)
    (secondSized : ∀ value ∈ second, value.sized) (firstKey : indexKey indexId first = .ok start)
    (secondKey : indexKey indexId second = .ok key) {tail : Bytes} (begins : start <+: key ++ tail) :
    first = second := by
  obtain ⟨_, firstDone, rfl⟩ := indexKey_eq_ok.mp firstKey
  obtain ⟨_, secondDone, rfl⟩ := indexKey_eq_ok.mp secondKey
  obtain ⟨rest, same⟩ := begins
  rw [append_assoc] at same
  exact (propertyIndexValues_delimits length firstSized secondSized firstDone secondDone (append_cancel_left same)).1

theorem readPropertyIndexVid_beWord (key : Bytes) (id : BitVec 64) :
    readPropertyIndexVid true key (beWord id) = .ok id := by
  have whole : 8 ∣ 64 := by decide
  simp [readPropertyIndexVid, check, beValue_beWord whole, bind, Except.bind, pure, Except.pure]

theorem readPropertyIndexVid_entryKey {id : BitVec 64} (done : entryKey indexId values id = .ok key)
    (value : Bytes) : readPropertyIndexVid false key value = .ok id := by
  obtain ⟨start, startDone, rfl⟩ := entryKey_eq_ok.mp done
  obtain ⟨encoded, -, rfl⟩ := indexKey_eq_ok.mp startDone
  have whole : 8 ∣ 64 := by decide
  have lastBytes : (beWord indexId ++ encoded ++ beWord id).drop ((beWord indexId ++ encoded ++ beWord id).length - 8) =
      beWord id := by
    apply drop_left'
    simp
    omega
  have long : 4 + 8 ≤ (beWord indexId ++ encoded ++ beWord id).length := by
    simp
    omega
  simp only [readPropertyIndexVid, Bool.false_eq_true, if_false, check, if_pos long, bind, Except.bind, pure, Except.pure,
    lastBytes, beValue_beWord whole, BitVec.ofNat_toNat, BitVec.setWidth_eq]

section Seek

variable {family : IndexFamily} {indexId : BitVec 32} {unique : Bool} {properties : Nat} {entries : List IndexEntry}
  {values : List Value} {start : Bytes}

theorem IndexFamily.keys_apart (family : IndexFamily) :
    family.entries.Pairwise fun first second => first.1 ≠ second.1 := by
  apply family.sorted.imp
  intro first second less same
  exact List.lt_irrefl _ (same ▸ less)

theorem IndexFamily.Holds.mem_of_prefix (holds : family.Holds indexId unique properties entries)
    (length : values.length = properties) (sized : ∀ value ∈ values, value.sized)
    (key : indexKey indexId values = .ok start)
    (mem : record ∈ family.entries) (begins : start <+: record.1) :
    ∃ entry ∈ entries, entry.values = values ∧ entry.record indexId unique = .ok record := by
  obtain ⟨encoded, -, rfl⟩ := indexKey_eq_ok.mp key
  obtain ⟨entry, inside, written⟩ := (holds.stored record).mp ⟨mem, (prefix_append _ _).trans begins⟩
  refine ⟨entry, inside, ?_, written⟩
  have sameLength : values.length = entry.values.length := length.trans (holds.length entry inside).symm
  cases unique with
  | true =>
    obtain ⟨entryDone, -⟩ := record_unique.mp written
    rw [← append_nil record.1] at begins
    exact (indexKey_prefix_inj sameLength sized (holds.sized entry inside) key entryDone begins).symm
  | false =>
    obtain ⟨entryDone, -⟩ := record_plain.mp written
    obtain ⟨_, startDone, same⟩ := entryKey_eq_ok.mp entryDone
    rw [same] at begins
    exact (indexKey_prefix_inj sameLength sized (holds.sized entry inside) key startDone begins).symm

theorem IndexFamily.Holds.seek_unique (holds : family.Holds indexId true properties entries)
    (length : values.length = properties) (sized : ∀ value ∈ values, value.sized)
    (key : indexKey indexId values = .ok start) :
    ∃ ids, family.seek true start = .ok ids ∧ ids.Nodup ∧ ∀ id, id ∈ ids ↔ ⟨values, id⟩ ∈ entries := by
  have stored : ∀ id, ⟨values, id⟩ ∈ entries → (start, beWord id) ∈ family.entries := fun id inside =>
    ((holds.stored (start, beWord id)).mpr ⟨⟨values, id⟩, inside, record_unique.mpr ⟨key, rfl⟩⟩).1
  cases found : family.entries.lookup start with
  | none =>
    refine ⟨[], by simp [seek, found], nodup_nil, fun id => ⟨nofun, fun inside => ?_⟩⟩
    have absent := lookup_eq_none_iff.mp found _ (stored id inside)
    simp at absent
  | some value =>
    obtain ⟨front, back, split, -⟩ := lookup_eq_some_iff.mp found
    have mem : (start, value) ∈ family.entries := by simp [split]
    obtain ⟨⟨_, id⟩, inside, rfl, written⟩ := holds.mem_of_prefix length sized key mem prefix_rfl
    obtain ⟨-, rfl⟩ := record_unique.mp written
    refine ⟨[id], ?_, nodup_singleton id, fun other => ?_⟩
    · simp only [seek, found, readPropertyIndexVid_beWord]
      rfl
    · rw [mem_singleton]
      constructor
      · rintro rfl
        exact inside
      · intro otherInside
        by_contra distinct
        have symmetric : Std.Symm fun first second : Bytes × Bytes => first.1 ≠ second.1 := ⟨fun _ _ apart => apart.symm⟩
        refine family.keys_apart.forall (stored other otherInside) mem (fun same => distinct ?_) rfl
        have sameValue := congrArg (fun record => beValue record.2) same
        simp only [beValue_beWord (by decide : 8 ∣ 64)] at sameValue
        exact BitVec.eq_of_toNat_eq sameValue

theorem IndexFamily.Holds.seek_plain (holds : family.Holds indexId false properties entries)
    (length : values.length = properties) (sized : ∀ value ∈ values, value.sized)
    (key : indexKey indexId values = .ok start) :
    ∃ ids, family.seek false start = .ok ids ∧ ids.Nodup ∧ ∀ id, id ∈ ids ↔ ⟨values, id⟩ ∈ entries := by
  let idOf : Bytes × Bytes → BitVec 64 := fun record => BitVec.ofNat 64 (beValue (record.1.drop start.length))
  have whole : 8 ∣ 64 := by decide
  have idOf_record : ∀ id : BitVec 64, idOf (start ++ beWord id, []) = id := by
    intro id
    simp [idOf, beValue_beWord whole]
  -- Each record that the seek passes is that of an entry with the values looked for.
  have passed : ∀ record ∈ family.entries.filter fun record => start.isPrefixOf record.1,
      ∃ id, ⟨values, id⟩ ∈ entries ∧ record = (start ++ beWord id, []) := by
    intro record mem
    obtain ⟨stored, begins⟩ := mem_filter.mp mem
    have begun := isPrefixOf_iff_prefix.mp begins
    obtain ⟨⟨_, id⟩, inside, rfl, written⟩ := holds.mem_of_prefix length sized key stored begun
    obtain ⟨done, empty⟩ := record_plain.mp written
    obtain ⟨_, startDone, same⟩ := entryKey_eq_ok.mp done
    rw [key] at startDone
    cases startDone
    exact ⟨id, inside, Prod.ext same empty⟩
  have reads : ∀ record ∈ family.entries.filter fun record => start.isPrefixOf record.1,
      readPropertyIndexVid false record.1 record.2 = .ok (idOf record) := by
    intro record mem
    obtain ⟨id, -, rfl⟩ := passed record mem
    rw [idOf_record]
    exact readPropertyIndexVid_entryKey (entryKey_eq_ok.mpr ⟨start, key, rfl⟩) []
  refine ⟨(family.entries.filter fun record => start.isPrefixOf record.1).map idOf, ?_, ?_, fun id => ?_⟩
  · simp only [seek, takeWhile_dropWhile_eq_filter family.sorted]
    exact mapM_eq_ok reads
  · have distinct : family.entries.Nodup := family.keys_apart.imp fun apart same => apart (congrArg Prod.fst same)
    refine (distinct.filter _).map_on fun first firstMember second secondMember same => ?_
    obtain ⟨_, -, rfl⟩ := passed first firstMember
    obtain ⟨_, -, rfl⟩ := passed second secondMember
    rw [idOf_record, idOf_record] at same
    rw [same]
  · rw [mem_map]
    constructor
    · rintro ⟨record, mem, rfl⟩
      obtain ⟨other, inside, rfl⟩ := passed record mem
      rwa [idOf_record]
    · intro inside
      have written : (⟨values, id⟩ : IndexEntry).record indexId false = .ok (start ++ beWord id, []) :=
        record_plain.mpr ⟨entryKey_eq_ok.mpr ⟨start, key, rfl⟩, rfl⟩
      have stored := ((holds.stored _).mpr ⟨⟨values, id⟩, inside, written⟩).1
      refine ⟨(start ++ beWord id, []), mem_filter.mpr ⟨stored, ?_⟩, idOf_record id⟩
      exact isPrefixOf_iff_prefix.mpr (prefix_append _ _)

/-- Encoded values begin another encoding, whatever follows it, only when they are the same values. A seek therefore
finds exactly the entries of its values, and the key of an entry gives back its id. -/
theorem IndexFamily.Holds.seek_matches (holds : family.Holds indexId unique properties entries) :
    (∀ (first second : List Value) (encoded others rest : Bytes), first.length = second.length →
      (∀ value ∈ first, value.sized) → (∀ value ∈ second, value.sized) → propertyIndexValues first = .ok encoded →
        propertyIndexValues second = .ok others → encoded <+: others ++ rest → first = second) ∧
    (∀ (values : List Value) (start : Bytes), values.length = properties → (∀ value ∈ values, value.sized) →
      indexKey indexId values = .ok start →
        ∃ ids, family.seek unique start = .ok ids ∧ ids.Nodup ∧ ∀ id, id ∈ ids ↔ ⟨values, id⟩ ∈ entries) ∧
    ∀ (values : List Value) (id : BitVec 64) (key value : Bytes), entryKey indexId values id = .ok key →
      readPropertyIndexVid false key value = .ok id := by
  refine ⟨?_, ?_, fun values id key value done => readPropertyIndexVid_entryKey done value⟩
  · rintro first second encoded others rest length firstSized secondSized firstDone secondDone ⟨tail, same⟩
    exact (propertyIndexValues_delimits length firstSized secondSized firstDone secondDone same).1
  · intro values start length sized key
    cases unique with
    | true => exact holds.seek_unique length sized key
    | false => exact holds.seek_plain length sized key

end Seek

/-- The vertices 9 and 12 with the name of one zero byte and the number 5, 3 with that name and another number, and 4
with another name, in a composite index. -/
def namedEntries : List IndexEntry :=
  [⟨[.string [0], .integer 5], 9⟩, ⟨[.string [0], .integer 5], 12⟩, ⟨[.string [0], .integer 6], 3⟩,
    ⟨[.string [98], .integer 1], 4⟩]

/-- The family has a record of another index behind them. -/
def namedFamily : IndexFamily where
  entries := [
    ([0, 0, 0, 7, 4, 0, 255, 0, 0, 2, 128, 0, 0, 0, 0, 0, 0, 5, 0, 0, 0, 0, 0, 0, 0, 9], []),
    ([0, 0, 0, 7, 4, 0, 255, 0, 0, 2, 128, 0, 0, 0, 0, 0, 0, 5, 0, 0, 0, 0, 0, 0, 0, 12], []),
    ([0, 0, 0, 7, 4, 0, 255, 0, 0, 2, 128, 0, 0, 0, 0, 0, 0, 6, 0, 0, 0, 0, 0, 0, 0, 3], []),
    ([0, 0, 0, 7, 4, 98, 0, 0, 2, 128, 0, 0, 0, 0, 0, 0, 1, 0, 0, 0, 0, 0, 0, 0, 4], []),
    ([0, 0, 0, 8, 4, 98, 0, 0], [0, 0, 0, 0, 0, 0, 0, 4])]
  sorted := by decide

theorem namedFamily_holds : namedFamily.Holds 7 false 2 namedEntries where
  length := by simp [namedEntries]
  sized := by simp [namedEntries, Value.sized]
  stored := by
    have written : namedEntries.map (·.record 7 false) =
        (namedFamily.entries.filter fun record => (beWord (7 : BitVec 32)).isPrefixOf record.1).map .ok := by
      decide +kernel
    intro record
    have listed := mem_map_of_injective (a := record)
      (l := namedFamily.entries.filter fun record => (beWord (7 : BitVec 32)).isPrefixOf record.1)
      fun _ _ => Except.ok.inj (ε := Error)
    rw [← written, mem_map, mem_filter, isPrefixOf_iff_prefix] at listed
    exact listed.symm

def namedKey : Bytes := [0, 0, 0, 7, 4, 0, 255, 0, 0, 2, 128, 0, 0, 0, 0, 0, 0, 5]

theorem seek_matches_named :
    let values : List Value := [.string [0], .integer 5]
    indexKey 7 values = .ok namedKey ∧
      ∃ ids, namedFamily.seek false namedKey = .ok ids ∧ 9 ∈ ids ∧ 12 ∈ ids ∧ 3 ∉ ids ∧ 4 ∉ ids := by
  intro values
  have key : indexKey 7 values = .ok namedKey := by decide +kernel
  obtain ⟨ids, done, -, found⟩ := namedFamily_holds.seek_matches.2.1 values namedKey rfl
    (by simp [values, Value.sized]) key
  refine ⟨key, ids, done, ?_⟩
  simp [found, values, namedEntries]

end RocksGraph.Storage
