import RocksGraph.Storage.ValueCodec

/-! Keys of the property indexes (`index.cc`).

A key holds the index id and the values one after the other, each in a form
that sorts as the value does. Two lists of values have one key only when they
are the same list: the key compares representations, not values. -/

set_option autoImplicit false

namespace RocksGraph.Storage

open Foundation List

/-- `AppendSortableInteger`: the sign bit is flipped and the highest byte comes first. -/
def sortableInteger {width : Nat} (value : BitVec width) : Bytes :=
  beWord (value ^^^ BitVec.intMin width)

theorem sortableInteger_delimits {width : Nat} (whole : 8 ∣ width) :
    Delimits (sortableInteger : BitVec width → Bytes) := by
  intro first second rest others same
  obtain ⟨flipped, sameRest⟩ := beWord_delimits whole same
  exact ⟨(BitVec.xor_left_inj _).mp flipped, sameRest⟩

theorem sortable32_delimits : Delimits (sortableInteger : BitVec 32 → Bytes) := sortableInteger_delimits (by decide)

theorem sortable64_delimits : Delimits (sortableInteger : BitVec 64 → Bytes) := sortableInteger_delimits (by decide)

/-- The bits of a double, turned so that they sort as the double does. -/
def sortableBits (bits : BitVec 64) : BitVec 64 :=
  if bits.msb then ~~~bits else bits ^^^ BitVec.intMin 64

theorem msb_sortableBits (bits : BitVec 64) : (sortableBits bits).msb = !bits.msb := by
  have top : (BitVec.intMin 64).msb = true := by decide
  rw [sortableBits]
  split <;> rename_i negative
  · rw [BitVec.msb_not]
    rfl
  · rw [BitVec.msb_xor, top, Bool.xor_true]

theorem sortableBits_injective : Function.Injective sortableBits := by
  intro first second same
  have signs : first.msb = second.msb := by
    have turned := congrArg BitVec.msb same
    rw [msb_sortableBits, msb_sortableBits] at turned
    exact Bool.not_inj turned
  rw [sortableBits, sortableBits, signs] at same
  split at same
  · exact BitVec.not_inj.mp same
  · exact (BitVec.xor_left_inj _).mp same

def sortableDouble (bits : BitVec 64) : Bytes := beWord (sortableBits bits)

theorem sortableDouble_delimits : Delimits sortableDouble := by
  intro first second rest others same
  obtain ⟨turned, sameRest⟩ := beWord_delimits (by decide) same
  exact ⟨sortableBits_injective turned, sameRest⟩

def ValueType.byte (type : ValueType) : UInt8 := UInt8.ofNat type.ctorIdx

theorem ValueType.byte_injective : Function.Injective ValueType.byte := by
  intro first second same
  cases first <;> cases second <;> first | rfl | (revert same; decide)

def sortableDate (date : Date) : Bytes :=
  sortableInteger date.year ++ (sortableInteger date.month ++ sortableInteger date.day)

def sortableLocalTime (time : LocalTime) : Bytes :=
  sortableInteger time.hour ++ (sortableInteger time.minute ++ (sortableInteger time.second ++
    (sortableInteger time.nanosecond ++ [flagByte time.hasSeconds])))

def sortableTime (time : Time) : Bytes :=
  sortableLocalTime time.localTime ++ (sortableInteger time.utcOffsetSeconds ++ escaped time.timezone)

def sortableLocalDateTime (dateTime : LocalDateTime) : Bytes :=
  sortableDate dateTime.date ++ sortableLocalTime dateTime.time

def sortableDateTime (dateTime : DateTime) : Bytes :=
  sortableLocalDateTime dateTime.localDateTime ++
    (sortableInteger dateTime.utcOffsetSeconds ++ escaped dateTime.timezone)

def sortableDuration (duration : Duration) : Bytes :=
  sortableInteger duration.months ++ (sortableInteger duration.days ++ (sortableInteger duration.seconds ++
    sortableInteger duration.nanoseconds))

/-- What `AppendPropertyIndexValue` writes behind the type byte. -/
def propertyIndexContent : Value → Except Error Bytes
  | .null => .ok []
  | .bool value => .ok [flagByte value]
  | .integer value => .ok (sortableInteger value)
  | .double bits => .ok (sortableDouble bits)
  | .string text => .ok (escaped text)
  | .list items => escaped <$> encodeValue (.list items)
  | .date value => .ok (sortableDate value)
  | .localTime value => .ok (sortableLocalTime value)
  | .time value => .ok (sortableTime value)
  | .localDateTime value => .ok (sortableLocalDateTime value)
  | .dateTime value => .ok (sortableDateTime value)
  | .duration value => .ok (sortableDuration value)
  | .point value => escaped <$> encodeValue (.point value)
  | .entity type _ =>
    .error ⟨.valueError, s!"Unsupported data type for property index, type: {type.valueType.ctorIdx}"⟩

def propertyIndexValue (value : Value) : Except Error Bytes := do
  let content ← propertyIndexContent value
  return value.type.byte :: content

def propertyIndexValues : List Value → Except Error Bytes
  | [] => .ok []
  | value :: rest => do
    let first ← propertyIndexValue value
    let others ← propertyIndexValues rest
    return first ++ others

def indexKey (indexId : BitVec 32) (values : List Value) : Except Error Bytes := do
  let encoded ← propertyIndexValues values
  return beWord indexId ++ encoded

theorem sortableDate_delimits : Delimits sortableDate := by
  rintro ⟨_, _, _⟩ ⟨_, _, _⟩ rest others same
  simp only [sortableDate, append_assoc] at same
  obtain ⟨rfl, sameMonth⟩ := sortable32_delimits same
  obtain ⟨rfl, sameDay⟩ := sortable32_delimits sameMonth
  obtain ⟨rfl, sameRest⟩ := sortable32_delimits sameDay
  exact ⟨rfl, sameRest⟩

theorem sortableLocalTime_delimits : Delimits sortableLocalTime := by
  rintro ⟨_, _, _, _, _⟩ ⟨_, _, _, _, _⟩ rest others same
  simp only [sortableLocalTime, append_assoc] at same
  obtain ⟨rfl, sameMinute⟩ := sortable32_delimits same
  obtain ⟨rfl, sameSecond⟩ := sortable32_delimits sameMinute
  obtain ⟨rfl, sameNano⟩ := sortable32_delimits sameSecond
  obtain ⟨rfl, sameFlag⟩ := sortable32_delimits sameNano
  obtain ⟨flag, sameRest⟩ := cons.inj sameFlag
  obtain rfl := flagByte_injective flag
  exact ⟨rfl, sameRest⟩

theorem sortableTime_delimits : Delimits sortableTime := by
  rintro ⟨_, _, _⟩ ⟨_, _, _⟩ rest others same
  simp only [sortableTime, append_assoc] at same
  obtain ⟨rfl, sameOffset⟩ := sortableLocalTime_delimits same
  obtain ⟨rfl, sameZone⟩ := sortable32_delimits sameOffset
  obtain ⟨rfl, sameRest⟩ := escaped_delimits sameZone
  exact ⟨rfl, sameRest⟩

theorem sortableLocalDateTime_delimits : Delimits sortableLocalDateTime := by
  rintro ⟨_, _⟩ ⟨_, _⟩ rest others same
  simp only [sortableLocalDateTime, append_assoc] at same
  obtain ⟨rfl, sameTime⟩ := sortableDate_delimits same
  obtain ⟨rfl, sameRest⟩ := sortableLocalTime_delimits sameTime
  exact ⟨rfl, sameRest⟩

theorem sortableDateTime_delimits : Delimits sortableDateTime := by
  rintro ⟨_, _, _⟩ ⟨_, _, _⟩ rest others same
  simp only [sortableDateTime, append_assoc] at same
  obtain ⟨rfl, sameOffset⟩ := sortableLocalDateTime_delimits same
  obtain ⟨rfl, sameZone⟩ := sortable32_delimits sameOffset
  obtain ⟨rfl, sameRest⟩ := escaped_delimits sameZone
  exact ⟨rfl, sameRest⟩

theorem sortableDuration_delimits : Delimits sortableDuration := by
  rintro ⟨_, _, _, _⟩ ⟨_, _, _, _⟩ rest others same
  simp only [sortableDuration, append_assoc] at same
  obtain ⟨rfl, sameDays⟩ := sortable64_delimits same
  obtain ⟨rfl, sameSeconds⟩ := sortable64_delimits sameDays
  obtain ⟨rfl, sameNano⟩ := sortable64_delimits sameSeconds
  obtain ⟨rfl, sameRest⟩ := sortable32_delimits sameNano
  exact ⟨rfl, sameRest⟩

variable {encoded others rest tail : Bytes} {first second : Value}

theorem escaped_encodeValue_inj (firstSized : first.sized)
    (secondSized : second.sized) (firstDone : escaped <$> encodeValue first = .ok encoded)
    (secondDone : escaped <$> encodeValue second = .ok others) (same : encoded ++ rest = others ++ tail) :
    first = second ∧ rest = tail := by
  rw [map_eq_ok] at firstDone secondDone
  obtain ⟨stored, firstStored, rfl⟩ := firstDone
  obtain ⟨_, secondStored, rfl⟩ := secondDone
  obtain ⟨rfl, sameRest⟩ := escaped_delimits same
  -- both are what is read back from the same bytes
  have left := takes_encodeValue firstSized firstStored Nat.le.refl []
  rw [takes_encodeValue secondSized secondStored Nat.le.refl []] at left
  cases left
  exact ⟨rfl, sameRest⟩

theorem propertyIndexContent_inj
    (sameType : first.type = second.type) (firstSized : first.sized) (secondSized : second.sized)
    (firstDone : propertyIndexContent first = .ok encoded) (secondDone : propertyIndexContent second = .ok others)
    (same : encoded ++ rest = others ++ tail) : first = second ∧ rest = tail := by
  cases first <;> cases second <;> try cases sameType
  case list.list | point.point => exact escaped_encodeValue_inj firstSized secondSized firstDone secondDone same
  all_goals try cases firstDone
  all_goals try cases secondDone
  case null.null => exact ⟨rfl, same⟩
  case bool.bool =>
    obtain ⟨flag, sameRest⟩ := cons.inj same
    exact ⟨congrArg _ (flagByte_injective flag), sameRest⟩
  case integer.integer => exact (sortable64_delimits same).imp_left (congrArg _)
  case double.double => exact (sortableDouble_delimits same).imp_left (congrArg _)
  case string.string => exact (escaped_delimits same).imp_left (congrArg _)
  case date.date => exact (sortableDate_delimits same).imp_left (congrArg _)
  case localTime.localTime => exact (sortableLocalTime_delimits same).imp_left (congrArg _)
  case time.time => exact (sortableTime_delimits same).imp_left (congrArg _)
  case localDateTime.localDateTime => exact (sortableLocalDateTime_delimits same).imp_left (congrArg _)
  case dateTime.dateTime => exact (sortableDateTime_delimits same).imp_left (congrArg _)
  case duration.duration => exact (sortableDuration_delimits same).imp_left (congrArg _)

theorem propertyIndexValue_inj
    (firstSized : first.sized) (secondSized : second.sized) (firstDone : propertyIndexValue first = .ok encoded)
    (secondDone : propertyIndexValue second = .ok others) (same : encoded ++ rest = others ++ tail) :
    first = second ∧ rest = tail := by
  simp only [propertyIndexValue, bind_eq_ok] at firstDone secondDone
  obtain ⟨_, firstContent, firstLast⟩ := firstDone
  obtain ⟨_, secondContent, secondLast⟩ := secondDone
  obtain rfl := pure_eq_ok.mp firstLast
  obtain rfl := pure_eq_ok.mp secondLast
  obtain ⟨typeByte, sameContent⟩ := cons.inj same
  exact propertyIndexContent_inj (ValueType.byte_injective typeByte) firstSized secondSized firstContent secondContent
    sameContent

theorem propertyIndexValues_delimits {first : List Value} :
    ∀ {second : List Value} {encoded others rest tail : Bytes},
    first.length = second.length → (∀ value ∈ first, value.sized) → (∀ value ∈ second, value.sized) →
      propertyIndexValues first = .ok encoded → propertyIndexValues second = .ok others →
        encoded ++ rest = others ++ tail → first = second ∧ rest = tail := by
  induction first with
  | nil =>
    intro second encoded others rest tail length _ _ firstDone secondDone same
    obtain rfl := eq_nil_of_length_eq_zero length.symm
    cases firstDone
    cases secondDone
    exact ⟨rfl, same⟩
  | cons value items ih =>
    intro second encoded others rest tail length firstSized secondSized firstDone secondDone same
    cases second with
    | nil => cases length
    | cons other more =>
      simp only [propertyIndexValues, bind_eq_ok] at firstDone secondDone
      obtain ⟨_, firstHead, _, firstTail, firstLast⟩ := firstDone
      obtain ⟨_, secondHead, _, secondTail, secondLast⟩ := secondDone
      obtain rfl := pure_eq_ok.mp firstLast
      obtain rfl := pure_eq_ok.mp secondLast
      rw [forall_mem_cons] at firstSized secondSized
      rw [append_assoc, append_assoc] at same
      obtain ⟨rfl, sameItems⟩ := propertyIndexValue_inj firstSized.1 secondSized.1 firstHead secondHead same
      obtain ⟨rfl, sameRest⟩ := ih (Nat.succ.inj length) firstSized.2 secondSized.2 firstTail secondTail sameItems
      exact ⟨rfl, sameRest⟩

theorem indexKey_inj {indexId : BitVec 32} {first second : List Value} {key : Bytes}
    (length : first.length = second.length) (firstSized : ∀ value ∈ first, value.sized)
    (secondSized : ∀ value ∈ second, value.sized) (firstKey : indexKey indexId first = .ok key)
    (secondKey : indexKey indexId second = .ok key) : first = second := by
  simp only [indexKey, bind_eq_ok] at firstKey secondKey
  obtain ⟨_, firstDone, firstLast⟩ := firstKey
  obtain ⟨_, secondDone, secondLast⟩ := secondKey
  have same := (pure_eq_ok.mp firstLast).symm.trans (pure_eq_ok.mp secondLast)
  have sameValues := congrArg (· ++ ([] : Bytes)) (append_cancel_left same)
  exact (propertyIndexValues_delimits length firstSized secondSized firstDone secondDone sameValues).1

end RocksGraph.Storage
