import RocksGraph.Foundation.Check
import RocksGraph.Foundation.Encoding

/-! Property values, their equality and their stored form (`value.h`,
`value.cc`, `value_codec.cc`).

Equality compares types strictly and numbers by value. The stored form keeps
the representation, so the two disagree on doubles that are not a number, on
the two zeros and on the `has_seconds` flag of times. -/

set_option autoImplicit false

namespace RocksGraph.Storage

open Foundation

inductive ErrorCode where
  | valueError
  | indexValueAlreadyExists
  | storageEngineError
  | outOfRange
  | invalidIndexQuery
  deriving DecidableEq, Repr

structure Error where
  code : ErrorCode
  message : String
  deriving DecidableEq, Repr

structure Date where
  year : BitVec 32
  month : BitVec 32
  day : BitVec 32
  deriving DecidableEq

structure LocalTime where
  hour : BitVec 32
  minute : BitVec 32
  second : BitVec 32
  nanosecond : BitVec 32
  hasSeconds : Bool
  deriving DecidableEq

structure Time where
  localTime : LocalTime
  utcOffsetSeconds : BitVec 32
  timezone : Bytes
  deriving DecidableEq

structure LocalDateTime where
  date : Date
  time : LocalTime
  deriving DecidableEq

structure DateTime where
  localDateTime : LocalDateTime
  utcOffsetSeconds : BitVec 32
  timezone : Bytes
  deriving DecidableEq

structure Duration where
  months : BitVec 64
  days : BitVec 64
  seconds : BitVec 64
  nanoseconds : BitVec 32
  deriving DecidableEq

/-- The coordinates are the bits of doubles. -/
structure Point where
  srid : BitVec 32
  coordinates : List (BitVec 64)
  deriving DecidableEq

/-- `ValueType`, in the order of its enumerators. -/
inductive ValueType where
  | null
  | bool
  | integer
  | double
  | string
  | list
  | map
  | node
  | relationship
  | path
  | date
  | localTime
  | time
  | localDateTime
  | dateTime
  | duration
  | point
  deriving DecidableEq, Repr

inductive EntityType where
  | map
  | node
  | relationship
  | path
  deriving DecidableEq, Repr

def EntityType.valueType : EntityType → ValueType
  | .map => .map
  | .node => .node
  | .relationship => .relationship
  | .path => .path

/-- `rg::Value`; a double is given by its bits. What a map, node, relationship
or path holds is only compared, and stands for itself as a number. -/
inductive Value where
  | null
  | bool (value : Bool)
  | integer (value : BitVec 64)
  | double (bits : BitVec 64)
  | string (text : Bytes)
  | list (items : List Value)
  | entity (type : EntityType) (content : Nat)
  | date (value : Date)
  | localTime (value : LocalTime)
  | time (value : Time)
  | localDateTime (value : LocalDateTime)
  | dateTime (value : DateTime)
  | duration (value : Duration)
  | point (value : Point)

def Value.type : Value → ValueType
  | .null => .null
  | .bool _ => .bool
  | .integer _ => .integer
  | .double _ => .double
  | .string _ => .string
  | .list _ => .list
  | .entity type _ => type.valueType
  | .date _ => .date
  | .localTime _ => .localTime
  | .time _ => .time
  | .localDateTime _ => .localDateTime
  | .dateTime _ => .dateTime
  | .duration _ => .duration
  | .point _ => .point

def magnitude (bits : BitVec 64) : Nat := bits.toNat % 2 ^ 63

def isNaN (bits : BitVec 64) : Bool := 0x7FF0000000000000 < magnitude bits

/-- `==` on doubles: nothing equals a NaN, and both zeros are equal. -/
def doubleEq (first second : BitVec 64) : Bool :=
  !isNaN first && !isNaN second && (first == second || (magnitude first == 0 && magnitude second == 0))

def doublesEq : List (BitVec 64) → List (BitVec 64) → Bool
  | [], [] => true
  | first :: rest, second :: others => doubleEq first second && doublesEq rest others
  | _, _ => false

/-- `operator==` of `LocalTime`, which does not read `has_seconds`. -/
def LocalTime.eq (first second : LocalTime) : Bool :=
  first.hour == second.hour && first.minute == second.minute && first.second == second.second &&
    first.nanosecond == second.nanosecond

def Time.eq (first second : Time) : Bool :=
  first.localTime.eq second.localTime && first.utcOffsetSeconds == second.utcOffsetSeconds &&
    first.timezone == second.timezone

def LocalDateTime.eq (first second : LocalDateTime) : Bool :=
  first.date == second.date && first.time.eq second.time

def DateTime.eq (first second : DateTime) : Bool :=
  first.localDateTime.eq second.localDateTime && first.utcOffsetSeconds == second.utcOffsetSeconds &&
    first.timezone == second.timezone

def Point.eq (first second : Point) : Bool :=
  first.srid == second.srid && doublesEq first.coordinates second.coordinates

mutual

def Value.eq : Value → Value → Bool
  | .null, .null => true
  | .bool first, .bool second => first == second
  | .integer first, .integer second => first == second
  | .double first, .double second => doubleEq first second
  | .string first, .string second => first == second
  | .list first, .list second => Value.listEq first second
  | .entity type first, .entity other second => type == other && first == second
  | .date first, .date second => first == second
  | .localTime first, .localTime second => first.eq second
  | .time first, .time second => first.eq second
  | .localDateTime first, .localDateTime second => first.eq second
  | .dateTime first, .dateTime second => first.eq second
  | .duration first, .duration second => first == second
  | .point first, .point second => first.eq second
  | _, _ => false

def Value.listEq : List Value → List Value → Bool
  | [], [] => true
  | first :: rest, second :: others => Value.eq first second && Value.listEq rest others
  | _, _ => false

end

/-! Values on which equality is identity. -/

def plainDouble (bits : BitVec 64) : Bool := !isNaN bits && magnitude bits != 0

mutual

/-- No double that is zero or NaN and no time of day in the value. -/
def Value.plain : Value → Bool
  | .double bits => plainDouble bits
  | .list items => Value.plainList items
  | .localTime _ => false
  | .time _ => false
  | .localDateTime _ => false
  | .dateTime _ => false
  | .point value => value.coordinates.all plainDouble
  | _ => true

def Value.plainList : List Value → Bool
  | [] => true
  | item :: rest => Value.plain item && Value.plainList rest

end

theorem doubleEq_iff_of_plain {first second : BitVec 64} (plain : plainDouble second) :
    doubleEq first second ↔ first = second := by
  simp only [plainDouble, Bool.and_eq_true, Bool.not_eq_true', bne_iff_ne] at plain
  simp only [doubleEq, plain.1, Bool.not_false, Bool.and_true, Bool.and_eq_true, Bool.not_eq_true',
    Bool.or_eq_true, beq_iff_eq, plain.2, and_false, or_false]
  exact ⟨And.right, fun same => ⟨same ▸ plain.1, same⟩⟩

theorem doublesEq_iff_of_plain {first second : List (BitVec 64)} (plain : second.all plainDouble) :
    doublesEq first second ↔ first = second := by
  induction second generalizing first with
  | nil => cases first <;> simp [doublesEq]
  | cons bits rest ih =>
    rw [List.all_cons, Bool.and_eq_true] at plain
    cases first with
    | nil => simp [doublesEq]
    | cons other more =>
      rw [doublesEq, Bool.and_eq_true, doubleEq_iff_of_plain plain.1, ih plain.2, List.cons.injEq]

mutual

theorem Value.eq_iff_of_plain : ∀ {first second : Value}, second.plain → (first.eq second ↔ first = second)
  | first, .null, _ | first, .bool _, _ | first, .integer _, _ | first, .string _, _ | first, .entity _ _, _
  | first, .date _, _ | first, .duration _, _ => by cases first <;> simp [Value.eq]
  | first, .double bits, plain => by
    rw [Value.plain] at plain
    cases first <;> simp [Value.eq, doubleEq_iff_of_plain plain]
  | first, .list items, plain => by
    rw [Value.plain] at plain
    cases first <;> simp [Value.eq, Value.listEq_iff_of_plain plain]
  | first, .point place, plain => by
    rw [Value.plain] at plain
    cases first with
    | point other =>
      obtain ⟨srid, coordinates⟩ := place
      obtain ⟨otherSrid, otherCoordinates⟩ := other
      simp [Value.eq, Point.eq, doublesEq_iff_of_plain plain]
    | _ => simp [Value.eq]

theorem Value.listEq_iff_of_plain : ∀ {first second : List Value}, Value.plainList second →
    (Value.listEq first second ↔ first = second)
  | first, [], _ => by cases first <;> simp [Value.listEq]
  | first, item :: rest, plain => by
    rw [Value.plainList, Bool.and_eq_true] at plain
    cases first with
    | nil => simp [Value.listEq]
    | cons other more =>
      rw [Value.listEq, Bool.and_eq_true, Value.eq_iff_of_plain plain.1, Value.listEq_iff_of_plain plain.2,
        List.cons.injEq]

end

/-- `StoredValueType`, in the order of its enumerators. -/
inductive StoredValueType where
  | null
  | bool
  | integer
  | double
  | string
  | list
  | date
  | localTime
  | time
  | localDateTime
  | dateTime
  | duration
  | point
  deriving DecidableEq, Repr

def StoredValueType.byte (type : StoredValueType) : UInt8 := UInt8.ofNat type.ctorIdx

def flagByte (flag : Bool) : UInt8 := if flag then 1 else 0

theorem flagByte_injective : Function.Injective flagByte := by
  intro first second same
  cases first <;> cases second <;> first | rfl | (revert same; decide)

def appendDate (date : Date) : Bytes := leWord date.year ++ (leWord date.month ++ leWord date.day)

def appendLocalTime (time : LocalTime) : Bytes :=
  leWord time.hour ++ (leWord time.minute ++ (leWord time.second ++ (leWord time.nanosecond ++
    [flagByte time.hasSeconds])))

def appendDuration (duration : Duration) : Bytes :=
  leWord duration.months ++ (leWord duration.days ++ (leWord duration.seconds ++ leWord duration.nanoseconds))

/-- The date and the time inside a date-time carry their own type bytes. -/
def appendLocalDateTime (dateTime : LocalDateTime) : Bytes :=
  StoredValueType.date.byte :: (appendDate dateTime.date ++
    (StoredValueType.localTime.byte :: appendLocalTime dateTime.time))

def appendTime (time : Time) : Bytes :=
  StoredValueType.localTime.byte :: (appendLocalTime time.localTime ++
    (leWord time.utcOffsetSeconds ++ sizedBytes time.timezone))

def appendDateTime (dateTime : DateTime) : Bytes :=
  StoredValueType.localDateTime.byte :: (appendLocalDateTime dateTime.localDateTime ++
    (leWord dateTime.utcOffsetSeconds ++ sizedBytes dateTime.timezone))

def appendPoint (point : Point) : Bytes :=
  leWord point.srid ++ (sizeBytes point.coordinates.length ++ point.coordinates.flatMap leWord)

mutual

def encodeValue : Value → Except Error Bytes
  | .null => .ok [StoredValueType.null.byte]
  | .bool value => .ok [StoredValueType.bool.byte, flagByte value]
  | .integer value => .ok (StoredValueType.integer.byte :: leWord value)
  | .double bits => .ok (StoredValueType.double.byte :: leWord bits)
  | .string text => .ok (StoredValueType.string.byte :: sizedBytes text)
  | .list items => do
    let encoded ← encodeValues items
    return StoredValueType.list.byte :: (sizeBytes items.length ++ encoded)
  | .date value => .ok (StoredValueType.date.byte :: appendDate value)
  | .localTime value => .ok (StoredValueType.localTime.byte :: appendLocalTime value)
  | .time value => .ok (StoredValueType.time.byte :: appendTime value)
  | .localDateTime value => .ok (StoredValueType.localDateTime.byte :: appendLocalDateTime value)
  | .dateTime value => .ok (StoredValueType.dateTime.byte :: appendDateTime value)
  | .duration value => .ok (StoredValueType.duration.byte :: appendDuration value)
  | .point value => .ok (StoredValueType.point.byte :: appendPoint value)
  | .entity type _ => .error
      ⟨.valueError, s!"value type {type.valueType.ctorIdx} cannot be stored as a graph property"⟩

def encodeValues : List Value → Except Error Bytes
  | [] => .ok []
  | item :: rest => do
    let first ← encodeValue item
    let others ← encodeValues rest
    return first ++ others

end

mutual

def Value.sized : Value → Bool
  | .string text => text.length < 2 ^ 64
  | .list items => items.length < 2 ^ 64 && Value.sizedList items
  | .time value => value.timezone.length < 2 ^ 64
  | .dateTime value => value.timezone.length < 2 ^ 64
  | .point value => value.coordinates.length < 2 ^ 64
  | _ => true

def Value.sizedList : List Value → Bool
  | [] => true
  | item :: rest => Value.sized item && Value.sizedList rest

end

theorem Value.sizedList_iff {items : List Value} : Value.sizedList items ↔ ∀ item ∈ items, item.sized := by
  induction items with
  | nil => simp [sizedList]
  | cons item rest ih => rw [sizedList, Bool.and_eq_true, List.forall_mem_cons, ih]

def StoredValueType.valueType : StoredValueType → ValueType
  | .null => .null
  | .bool => .bool
  | .integer => .integer
  | .double => .double
  | .string => .string
  | .list => .list
  | .date => .date
  | .localTime => .localTime
  | .time => .time
  | .localDateTime => .localDateTime
  | .dateTime => .dateTime
  | .duration => .duration
  | .point => .point

theorem encodeValue_head {value : Value} {encoded : Bytes} (done : encodeValue value = .ok encoded) :
    ∃ stored tail, value.type = StoredValueType.valueType stored ∧ encoded = stored.byte :: tail := by
  cases value with
  | list items =>
    rw [encodeValue, bind_eq_ok] at done
    obtain ⟨inner, -, last⟩ := done
    exact ⟨.list, _, rfl, pure_eq_ok.mp last⟩
  | entity => cases done
  | null | bool | integer | double | string | date | localTime | time | localDateTime | dateTime | duration | point =>
    refine ⟨_, _, ?_, (Except.ok.inj done).symm⟩
    rfl

end RocksGraph.Storage
