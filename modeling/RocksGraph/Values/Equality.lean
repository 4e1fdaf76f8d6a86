import RocksGraph.Foundation.Arrange
import RocksGraph.Storage.Value

/-! Grouping equality of values and its hash (`value.cc`, `composite_value_key.cc`).

Both read a value through the same normal form: a double that is an integer
counts as that integer, every NaN as one, and times without their `has_seconds`. -/

set_option autoImplicit false

namespace RocksGraph.Values

open Foundation Storage List

/-- `rg::Value`. The integers are those of `int64_t`, a double is given by its
bits and a map by its entries in the order of `std::map`. Of the nodes and
relationships only the ids are read; those of a path may be missing. -/
inductive Value where
  | null
  | bool (value : Bool)
  | integer (value : Int)
  | double (bits : BitVec 64)
  | string (text : Bytes)
  | list (items : List Value)
  | map (entries : List (Bytes × Value))
  | node (id : Int)
  | relationship (id : Int)
  | path (nodes relationships : List (Option Int))
  | date (value : Date)
  | localTime (value : LocalTime)
  | time (value : Time)
  | localDateTime (value : LocalDateTime)
  | dateTime (value : DateTime)
  | duration (value : Duration)
  | point (value : Point)

/-- What a finite double of this magnitude amounts to, in units of 2^-1074. -/
def scale (magnitude : Nat) : Nat :=
  if magnitude / 2 ^ 52 = 0 then magnitude
  else (2 ^ 52 + magnitude % 2 ^ 52) * 2 ^ (magnitude / 2 ^ 52 - 1)

def scaledOne : Nat := 2 ^ 1074

def doubleAsInteger (bits : BitVec 64) : Option Int :=
  let size := scale (magnitude bits)
  let value : Int := if bits.msb then -(size / scaledOne : Nat) else (size / scaledOne : Nat)
  if magnitude bits < 0x7FF0000000000000 ∧ scaledOne ∣ size ∧ -2 ^ 63 ≤ value ∧ value < 2 ^ 63 then some value
  else none

def numericEqual (nanEqual : Bool) : Value → Value → Bool
  | .integer left, .integer right => left == right
  | .double left, .double right => doubleEq left right || (nanEqual && isNaN left && isNaN right)
  | .integer integer, .double floating | .double floating, .integer integer =>
    doubleAsInteger floating == some integer
  | _, _ => false

def coordinatesEqual : List (BitVec 64) → List (BitVec 64) → Bool
  | [], [] => true
  | left :: rest, right :: others => (doubleEq left right || (isNaN left && isNaN right)) && coordinatesEqual rest others
  | _, _ => false

mutual

def Value.equal : Value → Value → Bool
  | .null, .null => true
  | .bool left, .bool right => left == right
  | .string left, .string right => left == right
  | .list left, .list right => itemsEqual left right
  | .map left, .map right => entriesEqual left right
  | .node left, .node right => left == right
  | .relationship left, .relationship right => left == right
  | .path nodes relationships, .path otherNodes otherRelationships =>
    nodes == otherNodes && relationships == otherRelationships
  | .date left, .date right => left == right
  | .localTime left, .localTime right => left.eq right
  | .time left, .time right => left.eq right
  | .localDateTime left, .localDateTime right => left.eq right
  | .dateTime left, .dateTime right => left.eq right
  | .duration left, .duration right => left == right
  | .point left, .point right => left.srid == right.srid && coordinatesEqual left.coordinates right.coordinates
  -- numbers, or values of different types
  | left, right => numericEqual true left right

def itemsEqual : List Value → List Value → Bool
  | [], [] => true
  | left :: rest, right :: others => left.equal right && itemsEqual rest others
  | _, _ => false

def entriesEqual : List (Bytes × Value) → List (Bytes × Value) → Bool
  | [], [] => true
  | (name, left) :: rest, (other, right) :: others => name == other && left.equal right && entriesEqual rest others
  | _, _ => false

end

/-- The `std::hash` of the types that are hashed. -/
structure StdHash where
  bool : Bool → BitVec 64
  int32 : BitVec 32 → BitVec 64
  int64 : Int → BitVec 64
  size : Nat → BitVec 64
  double : BitVec 64 → BitVec 64
  string : Bytes → BitVec 64

def hashCombine (seed value : BitVec 64) : BitVec 64 :=
  seed ^^^ (value + 0x9e3779b97f4a7c15 + (seed <<< 6) + (seed >>> 2))

namespace StdHash

variable (std : StdHash)

def tag (type : ValueType) : BitVec 64 := std.int32 (.ofNat 32 type.ctorIdx)

def hashDouble (bits : BitVec 64) : BitVec 64 :=
  if isNaN bits then 0x7ff8000000000000 else std.double (if magnitude bits = 0 then 0 else bits)

def hashNumber (bits : BitVec 64) : BitVec 64 :=
  hashCombine (std.tag .integer)
    (match doubleAsInteger bits with
    | some integer => std.int64 integer
    | none => std.hashDouble bits)

def addDate (seed : BitVec 64) (date : Date) : BitVec 64 :=
  [date.year, date.month, date.day].foldl (fun seed field => hashCombine seed (std.int32 field)) seed

def addLocalTime (seed : BitVec 64) (time : LocalTime) : BitVec 64 :=
  [time.hour, time.minute, time.second, time.nanosecond].foldl
    (fun seed field => hashCombine seed (std.int32 field)) seed

def addEntityIdentity (seed : BitVec 64) (id : Option Int) : BitVec 64 := hashCombine seed ((id.map std.int64).getD 0)

mutual

def hash : Value → BitVec 64
  | .null => std.tag .null
  | .bool value => hashCombine (std.tag .bool) (std.bool value)
  | .integer value => hashCombine (std.tag .integer) (std.int64 value)
  | .double bits => std.hashNumber bits
  | .string text => hashCombine (std.tag .string) (std.string text)
  | .list items => hashItems (hashCombine (std.tag .list) (std.size items.length)) items
  | .map entries => hashEntries (hashCombine (std.tag .map) (std.size entries.length)) entries
  | .node id => hashCombine (std.tag .node) (std.int64 id)
  | .relationship id => hashCombine (std.tag .relationship) (std.int64 id)
  | .path nodes relationships =>
    let seed := nodes.foldl std.addEntityIdentity (hashCombine (std.tag .path) (std.size nodes.length))
    relationships.foldl std.addEntityIdentity (hashCombine seed (std.size relationships.length))
  | .date value => std.addDate (std.tag .date) value
  | .localTime value => std.addLocalTime (std.tag .localTime) value
  | .time value =>
    let seed := std.addLocalTime (std.tag .time) value.localTime
    hashCombine (hashCombine seed (std.int32 value.utcOffsetSeconds)) (std.string value.timezone)
  | .localDateTime value => std.addLocalTime (std.addDate (std.tag .localDateTime) value.date) value.time
  | .dateTime value =>
    let seed := std.addLocalTime (std.addDate (std.tag .dateTime) value.localDateTime.date) value.localDateTime.time
    hashCombine (hashCombine seed (std.int32 value.utcOffsetSeconds)) (std.string value.timezone)
  | .duration value =>
    let seed := [value.months, value.days, value.seconds].foldl
      (fun seed field => hashCombine seed (std.int64 field.toInt)) (std.tag .duration)
    hashCombine seed (std.int32 value.nanoseconds)
  | .point value =>
    let seed := hashCombine (hashCombine (std.tag .point) (std.int32 value.srid)) (std.size value.coordinates.length)
    value.coordinates.foldl (fun seed bits => hashCombine seed (std.hashDouble bits)) seed

def hashItems (seed : BitVec 64) : List Value → BitVec 64
  | [] => seed
  | item :: rest => hashItems (hashCombine seed (hash item)) rest

def hashEntries (seed : BitVec 64) : List (Bytes × Value) → BitVec 64
  | [] => seed
  | (name, item) :: rest => hashEntries (hashCombine (hashCombine seed (std.string name)) (hash item)) rest

end

/-- `CompositeValueKeyHash`; `CompositeValueKeyEqual` is `itemsEqual`. -/
def compositeHash (values : List Value) : BitVec 64 := std.hashItems (std.size values.length) values

end StdHash

def canonical (bits : BitVec 64) : BitVec 64 :=
  if isNaN bits then 0x7ff8000000000000 else if magnitude bits = 0 then 0 else bits

def withoutSeconds (time : LocalTime) : LocalTime := { time with hasSeconds := false }

mutual

def Value.key : Value → Value
  | .double bits => (doubleAsInteger bits).elim (.double (canonical bits)) .integer
  | .list items => .list (itemKeys items)
  | .map entries => .map (entryKeys entries)
  | .localTime value => .localTime (withoutSeconds value)
  | .time value => .time { value with localTime := withoutSeconds value.localTime }
  | .localDateTime value => .localDateTime { value with time := withoutSeconds value.time }
  | .dateTime value => .dateTime { value with
      localDateTime := { value.localDateTime with time := withoutSeconds value.localDateTime.time } }
  | .point value => .point { value with coordinates := value.coordinates.map canonical }
  | value => value

def itemKeys : List Value → List Value
  | [] => []
  | item :: rest => item.key :: itemKeys rest

def entryKeys : List (Bytes × Value) → List (Bytes × Value)
  | [] => []
  | (name, item) :: rest => (name, item.key) :: entryKeys rest

end

theorem scale_strictMono : StrictMono scale := by
  refine strictMono_nat_of_lt_succ fun size => ?_
  unfold scale
  by_cases last : size % 2 ^ 52 + 1 = 2 ^ 52
  · have quotient : (size + 1) / 2 ^ 52 = size / 2 ^ 52 + 1 := by omega
    rw [quotient, if_neg (Nat.succ_ne_zero _), Nat.add_sub_cancel]
    split
    next none =>
      rw [none]
      omega
    next exponent =>
      obtain ⟨power, isPower⟩ := Nat.exists_eq_succ_of_ne_zero exponent
      rw [isPower, show 2 ^ power.succ = 2 * 2 ^ power from Nat.pow_succ', ← Nat.mul_assoc]
      exact Nat.mul_lt_mul_of_pos_right (by omega) (Nat.two_pow_pos power)
  · have quotient : (size + 1) / 2 ^ 52 = size / 2 ^ 52 := by omega
    rw [quotient]
    split
    · exact Nat.lt_succ_self size
    · exact Nat.mul_lt_mul_of_pos_right (by omega) (Nat.two_pow_pos _)

variable {left right : BitVec 64}

theorem canonical_eq_iff :
    canonical left = canonical right ↔ (doubleEq left right || (isNaN left && isNaN right)) = true := by
  have nan : isNaN 0x7ff8000000000000 = true := by decide
  have zero : magnitude 0 = 0 := by decide
  unfold canonical doubleEq
  grind

theorem scaledOne_pos : 0 < scaledOne := Nat.two_pow_pos 1074

theorem doubleAsInteger_eq_some {bits : BitVec 64} {integer : Int} (converted : doubleAsInteger bits = some integer) :
    isNaN bits = false ∧ scale (magnitude bits) = integer.natAbs * scaledOne ∧
      (if bits.msb then integer ≤ 0 else 0 ≤ integer) := by
  simp only [doubleAsInteger, Option.ite_none_right_eq_some, Option.some.injEq] at converted
  obtain ⟨⟨finite, ⟨factor, whole⟩, -, -⟩, rfl⟩ := converted
  rw [whole, Nat.mul_div_cancel_left _ scaledOne_pos, Nat.mul_comm]
  refine ⟨decide_eq_false (by omega), ?_, ?_⟩
  · split <;> simp
  · split <;> omega

theorem doubleAsInteger_canonical (bits : BitVec 64) : doubleAsInteger (canonical bits) = doubleAsInteger bits := by
  unfold canonical
  split
  next nan =>
    have infinite {other : BitVec 64} (nan : isNaN other = true) : doubleAsInteger other = none := by
      cases converted : doubleAsInteger other with
      | none => rfl
      | some integer =>
        rw [(doubleAsInteger_eq_some converted).1] at nan
        cases nan
    rw [infinite nan, infinite (by decide)]
  split
  next zero =>
    have isZero {other : BitVec 64} (zero : magnitude other = 0) : doubleAsInteger other = some 0 := by
      simp [doubleAsInteger, zero, scale]
    rw [isZero zero, isZero (by decide)]
  · rfl

/-- Doubles that are the same integer differ at most in the sign of zero. -/
theorem canonical_of_doubleAsInteger {integer : Int}
    (first : doubleAsInteger left = some integer) (second : doubleAsInteger right = some integer) :
    canonical left = canonical right := by
  obtain ⟨leftNumber, leftSize, leftSign⟩ := doubleAsInteger_eq_some first
  obtain ⟨rightNumber, rightSize, rightSign⟩ := doubleAsInteger_eq_some second
  have sizes : magnitude left = magnitude right := scale_strictMono.injective (leftSize.trans rightSize.symm)
  simp only [canonical, leftNumber, rightNumber, sizes, Bool.false_eq_true, if_false]
  split
  · rfl
  rename_i nonzero
  have notZero : integer ≠ 0 := by
    rintro rfl
    exact nonzero (scale_strictMono.injective (rightSize.trans (by simp [scale])))
  have signs : left.msb = right.msb := by
    cases isLeft : left.msb <;> cases isRight : right.msb <;> simp_all <;> omega
  rw [BitVec.msb_eq_decide, BitVec.msb_eq_decide, decide_eq_decide] at signs
  refine BitVec.eq_of_toNat_eq ?_
  unfold magnitude at sizes
  omega

/-! ## Equality and hash by the normal form -/

@[simp] theorem key_double_eq_iff {bits : BitVec 64} {value : Value} :
    (doubleAsInteger bits).elim (.double (canonical bits)) .integer = value ↔
      (∃ integer, doubleAsInteger bits = some integer ∧ .integer integer = value) ∨
      doubleAsInteger bits = none ∧ .double (canonical bits) = value := by
  cases doubleAsInteger bits <;> simp

theorem length_itemKeys (items : List Value) : (itemKeys items).length = items.length := by
  induction items with
  | nil => rfl
  | cons item rest ih => rw [itemKeys, length_cons, length_cons, ih]

theorem length_entryKeys (entries : List (Bytes × Value)) : (entryKeys entries).length = entries.length := by
  induction entries with
  | nil => rfl
  | cons entry rest ih => rw [entryKeys, length_cons, length_cons, ih]

theorem localTime_eq_iff {left right : LocalTime} : left.eq right ↔ withoutSeconds left = withoutSeconds right := by
  simp [LocalTime.eq, withoutSeconds, and_assoc]

theorem coordinatesEqual_iff {left right : List (BitVec 64)} :
    coordinatesEqual left right ↔ left.map canonical = right.map canonical := by
  induction left generalizing right with
  | nil => cases right <;> simp [coordinatesEqual]
  | cons bits rest ih =>
    cases right with
    | nil => simp [coordinatesEqual]
    | cons other others =>
      rw [coordinatesEqual, Bool.and_eq_true, ← canonical_eq_iff, ih, map_cons, map_cons, cons.injEq]

theorem numericEqual_double :
    numericEqual true (.double left) (.double right) ↔ Value.key (.double left) = Value.key (.double right) := by
  rw [numericEqual, Bool.true_and, ← canonical_eq_iff, Value.key, Value.key]
  constructor
  · intro same
    rw [← doubleAsInteger_canonical left, ← doubleAsInteger_canonical right, same]
  · intro same
    cases first : doubleAsInteger left <;> cases second : doubleAsInteger right <;> simp_all
    exact canonical_of_doubleAsInteger first second

mutual

theorem Value.equal_iff : ∀ left right : Value, left.equal right ↔ left.key = right.key
  | left, .double bits => by
    cases left with
    | double other => exact numericEqual_double
    | _ => simp [Value.equal, Value.key, numericEqual, eq_comm (b := Option.elim _ _ _)]
  | left, .list items => by cases left <;> simp [Value.equal, Value.key, numericEqual, itemsEqual_iff]
  | left, .map entries => by cases left <;> simp [Value.equal, Value.key, numericEqual, entriesEqual_iff]
  | left, .integer _ => by cases left <;> simp [Value.equal, Value.key, numericEqual]
  | left, .null | left, .bool _ | left, .string _ | left, .node _ | left, .relationship _ | left, .path _ _
  | left, .date _ | left, .duration _ => by
    cases left <;> simp [Value.equal, Value.key, numericEqual]
  | left, .localTime _ | left, .time _ | left, .localDateTime _ | left, .dateTime _ => by
    cases left <;> simp [Value.equal, Value.key, numericEqual, localTime_eq_iff, Time.eq, LocalDateTime.eq, DateTime.eq,
      and_assoc]
  | left, .point _ => by cases left <;> simp [Value.equal, Value.key, numericEqual, coordinatesEqual_iff]

theorem itemsEqual_iff : ∀ left right : List Value, itemsEqual left right ↔ itemKeys left = itemKeys right
  | [], [] => by simp [itemsEqual]
  | [], _ :: _ => by simp [itemsEqual, itemKeys]
  | _ :: _, [] => by simp [itemsEqual, itemKeys]
  | item :: rest, other :: others => by
    simp [itemsEqual, itemKeys, Value.equal_iff item other, itemsEqual_iff rest others]

theorem entriesEqual_iff : ∀ left right : List (Bytes × Value),
    entriesEqual left right ↔ entryKeys left = entryKeys right
  | [], [] => by simp [entriesEqual]
  | [], _ :: _ => by simp [entriesEqual, entryKeys]
  | _ :: _, [] => by simp [entriesEqual, entryKeys]
  | (name, item) :: rest, (other, value) :: others => by
    simp [entriesEqual, entryKeys, Value.equal_iff item value, entriesEqual_iff rest others, and_assoc]

end

/-! ## Stored values -/

section Stored

variable (entity : EntityType → Nat → Value)

mutual

/-- A value of the storage, where an entity stands for itself as a number. -/
def Value.ofStored : Storage.Value → Value
  | .null => .null
  | .bool value => .bool value
  | .integer value => .integer value.toInt
  | .double bits => .double bits
  | .string text => .string text
  | .list items => .list (itemsOfStored items)
  | .entity type content => entity type content
  | .date value => .date value
  | .localTime value => .localTime value
  | .time value => .time value
  | .localDateTime value => .localDateTime value
  | .dateTime value => .dateTime value
  | .duration value => .duration value
  | .point value => .point value

def itemsOfStored : List Storage.Value → List Value
  | [] => []
  | item :: rest => Value.ofStored item :: itemsOfStored rest

end

theorem coordinatesEqual_of_doublesEq {left right : List (BitVec 64)} (same : doublesEq left right) :
    coordinatesEqual left right := by
  induction left generalizing right with
  | nil => cases right <;> simp_all [doublesEq, coordinatesEqual]
  | cons bits rest ih =>
    cases right with
    | nil => cases same
    | cons other others =>
      rw [doublesEq, Bool.and_eq_true] at same
      simp [coordinatesEqual, same.1, ih same.2]

mutual

/-- Stored values that `operator==` takes for equal are in one group. -/
theorem Value.equal_ofStored : ∀ {left right : Storage.Value}, left.eq right →
    (Value.ofStored entity left).equal (Value.ofStored entity right)
  | .list items, .list others, same => by
    rw [Storage.Value.eq] at same
    simp [Value.ofStored, Value.equal, itemsEqual_ofStored same]
  | .entity type content, .entity other number, same => by
    simp only [Storage.Value.eq, Bool.and_eq_true, beq_iff_eq] at same
    rw [same.1, same.2]
    exact (Value.equal_iff _ _).mpr rfl
  | .point place, .point other, same => by
    rw [Storage.Value.eq, Point.eq, Bool.and_eq_true, beq_iff_eq] at same
    simp [Value.ofStored, Value.equal, same.1, coordinatesEqual_of_doublesEq same.2]
  | .null, right, same | .bool _, right, same | .integer _, right, same | .double _, right, same
  | .string _, right, same | .date _, right, same | .localTime _, right, same | .time _, right, same
  | .localDateTime _, right, same | .dateTime _, right, same | .duration _, right, same => by
    cases right <;> simp_all [Storage.Value.eq, Value.ofStored, Value.equal, numericEqual]

theorem itemsEqual_ofStored : ∀ {left right : List Storage.Value}, Storage.Value.listEq left right →
    itemsEqual (itemsOfStored entity left) (itemsOfStored entity right)
  | [], [], _ => rfl
  | item :: rest, other :: others, same => by
    rw [Storage.Value.listEq, Bool.and_eq_true] at same
    simp [itemsOfStored, itemsEqual, Value.equal_ofStored same.1, itemsEqual_ofStored same.2]

end

end Stored

namespace StdHash

variable (std : StdHash)

theorem hashDouble_canonical (bits : BitVec 64) : std.hashDouble (canonical bits) = std.hashDouble bits := by
  have nan : isNaN 0x7ff8000000000000 = true := by decide
  have zero : isNaN 0 = false ∧ magnitude 0 = 0 := by decide
  unfold hashDouble canonical
  grind

mutual

theorem hash_key : ∀ value : Value, std.hash value.key = std.hash value
  | .double bits => by
    rw [Value.key, hash]
    cases converted : doubleAsInteger bits with
    | some integer => simp [hash, hashNumber, converted]
    | none => simp only [Option.elim_none, hash, hashNumber, doubleAsInteger_canonical, hashDouble_canonical]
  | .list items => by rw [Value.key, hash, hash, hashItems_keys items, length_itemKeys]
  | .map entries => by rw [Value.key, hash, hash, hashEntries_keys entries, length_entryKeys]
  | .point value => by simp [Value.key, hash, foldl_map, hashDouble_canonical]
  | .localTime _ | .time _ | .localDateTime _ | .dateTime _ => rfl
  | .null | .bool _ | .integer _ | .string _ | .node _ | .relationship _ | .path _ _ | .date _ | .duration _ => rfl

theorem hashItems_keys : ∀ (items : List Value) {seed : BitVec 64},
    std.hashItems seed (itemKeys items) = std.hashItems seed items
  | [], _ => rfl
  | item :: rest, _ => by rw [itemKeys, hashItems, hashItems, hash_key item, hashItems_keys rest]

theorem hashEntries_keys : ∀ (entries : List (Bytes × Value)) {seed : BitVec 64},
    std.hashEntries seed (entryKeys entries) = std.hashEntries seed entries
  | [], _ => rfl
  | (name, item) :: rest, _ => by rw [entryKeys, hashEntries, hashEntries, hash_key item, hashEntries_keys rest]

end

theorem compositeHash_keys (values : List Value) : std.compositeHash (itemKeys values) = std.compositeHash values := by
  rw [compositeHash, compositeHash, hashItems_keys, length_itemKeys]

/-- Whether `unordered_map` and `unordered_set` find the entry of one key for the other. -/
def finds (left right : List Value) : Bool :=
  std.compositeHash left == std.compositeHash right && itemsEqual left right

variable {Row : Type} (key : Row → List Value)

/-- The groups that DISTINCT, an aggregation or a hash join makes of its rows as they come. -/
def groups (rows : List Row) : List (Row × List Row) :=
  groupsBy (fun first second => std.finds (key first) (key second)) rows

def Together (rows : List Row) (first second : Row) : Prop :=
  ∃ group ∈ std.groups key rows, first ∈ group.2 ∧ second ∈ group.2

theorem finds_iff {left right : List Value} : std.finds left right ↔ itemKeys left = itemKeys right := by
  rw [finds, Bool.and_eq_true, beq_iff_eq, itemsEqual_iff, and_iff_right_of_imp]
  intro same
  rw [← compositeHash_keys, same, compositeHash_keys]

theorem together_iff {rows : List Row} {first second : Row} : std.Together key rows first second ↔
    first ∈ rows ∧ second ∈ rows ∧ itemKeys (key first) = itemKeys (key second) := by
  simp only [Together, groups, groupsBy, mem_map, exists_exists_and_eq_and, mem_filter, finds_iff]
  constructor
  · rintro ⟨head, -, ⟨inFirst, sameFirst⟩, inSecond, sameSecond⟩
    exact ⟨inFirst, inSecond, sameFirst.symm.trans sameSecond⟩
  · rintro ⟨inFirst, inSecond, same⟩
    have found : ∃ head ∈ rows.eraseDupsBy fun one two => std.finds (key one) (key two),
        std.finds (key head) (key first) := by
      apply exists_mem_eraseDupsBy (fun row => ?_) (fun one two found => ?_) inFirst
      · exact std.finds_iff.mpr rfl
      · exact std.finds_iff.mpr (std.finds_iff.mp found).symm
    obtain ⟨head, mem, sameFirst⟩ := found
    rw [finds_iff] at sameFirst
    exact ⟨head, mem, ⟨inFirst, sameFirst⟩, inSecond, sameFirst.trans same⟩

/-- Grouping equality is an equivalence that the hashes respect, so that rows are
grouped in the same way in whatever order they come. -/
theorem grouping_sound : Equivalence (fun left right : Value => left.equal right = true) ∧
    (∀ left right : Value, left.equal right → std.hash left = std.hash right) ∧
    (∀ left right, itemsEqual left right → std.compositeHash left = std.compositeHash right) ∧
    ∀ rows other : List Row, rows.Perm other → ∀ first second,
      std.Together key rows first second ↔ std.Together key other first second := by
  refine ⟨⟨fun value => ?_, fun same => ?_, fun one two => ?_⟩, fun left right same => ?_, fun left right same => ?_, ?_⟩
  · exact (Value.equal_iff value value).mpr rfl
  · exact (Value.equal_iff _ _).mpr ((Value.equal_iff _ _).mp same).symm
  · exact (Value.equal_iff _ _).mpr (((Value.equal_iff _ _).mp one).trans ((Value.equal_iff _ _).mp two))
  · rw [← std.hash_key, (Value.equal_iff left right).mp same, hash_key]
  · rw [← std.compositeHash_keys, (itemsEqual_iff left right).mp same, compositeHash_keys]
  · intro rows other perm first second
    rw [together_iff, together_iff, perm.mem_iff, perm.mem_iff]

end StdHash

end RocksGraph.Values
