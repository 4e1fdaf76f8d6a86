import RocksGraph.Foundation.Decoding
import RocksGraph.Storage.Value

/-! Reading stored values (`value_codec.cc`).

`DecodeValue` calls itself for the items of a list and for the parts of times and
date-times. Every call takes at least the type byte, so that the number of bytes
bounds how deep the calls are nested. -/

set_option autoImplicit false

namespace RocksGraph.Storage

open Foundation List

open Reader (Takes Local Agree)

def decodeError (message : String) : Error := ⟨.storageEngineError, message⟩

/-- `Decoder::Read` of a number, which lies in memory with its lowest byte first. -/
def readWord (width : Nat) : Reader Error (BitVec width) := do
  let bytes ← Reader.bytes (width / 8) (decodeError "stored value is truncated")
  return BitVec.ofNat width (leValue bytes)

def readByte : Reader Error UInt8 := do
  let bytes ← Reader.bytes 1 (decodeError "stored value is truncated")
  return bytes.headD 0

def readFlag : Reader Error Bool := do
  let byte ← readByte
  return byte != 0

def readSize : Reader Error Nat := do
  let size ← readWord 64
  return size.toNat

def readString : Reader Error Bytes := do
  let size ← readSize
  Reader.remaining size (decodeError "stored value contains a truncated string")
  Reader.bytes size (decodeError "stored value contains a truncated string")

def StoredValueType.ofByte (byte : UInt8) : Option StoredValueType :=
  [null, bool, integer, double, string, list, date, localTime, time, localDateTime, dateTime, duration,
    point][byte.toNat]?

def decodeDate : Reader Error Date := do
  let year ← readWord 32
  let month ← readWord 32
  let day ← readWord 32
  return ⟨year, month, day⟩

def decodeLocalTime : Reader Error LocalTime := do
  let hour ← readWord 32
  let minute ← readWord 32
  let second ← readWord 32
  let nanosecond ← readWord 32
  let hasSeconds ← readFlag
  return ⟨hour, minute, second, nanosecond, hasSeconds⟩

def decodeDuration : Reader Error Duration := do
  let months ← readWord 64
  let days ← readWord 64
  let seconds ← readWord 64
  let nanoseconds ← readWord 32
  return ⟨months, days, seconds, nanoseconds⟩

def decodePoint : Reader Error Point := do
  let srid ← readWord 32
  let size ← readSize
  Reader.remaining (size * 8) (decodeError "stored point is too large")
  let coordinates ← (readWord 64).many size
  return ⟨srid, coordinates⟩

def expectLocalTime : Value → Reader Error LocalTime
  | .localTime value => pure value
  | _ => .fail (decodeError "stored time has an invalid local time")

def expectLocalDateTime : Value → Value → Reader Error LocalDateTime
  | .date date, .localTime time => pure ⟨date, time⟩
  | _, _ => .fail (decodeError "stored local datetime has invalid components")

def expectDateTime : Value → Reader Error LocalDateTime
  | .localDateTime value => pure value
  | _ => .fail (decodeError "stored datetime has an invalid local datetime")

/-- What `DecodeValue` reads behind the type byte. -/
def decodeContent (decode : Reader Error Value) : Option StoredValueType → Reader Error Value
  | none => .fail (decodeError "stored value has an unknown type tag")
  | some .null => pure .null
  | some .bool => do return .bool (← readFlag)
  | some .integer => do return .integer (← readWord 64)
  | some .double => do return .double (← readWord 64)
  | some .string => do return .string (← readString)
  | some .list => do
    let size ← readSize
    Reader.remaining size (decodeError "stored list is too large")
    let items ← decode.many size
    return .list items
  | some .date => do return .date (← decodeDate)
  | some .localTime => do return .localTime (← decodeLocalTime)
  | some .time => do
    let value ← decode
    let localTime ← expectLocalTime value
    let offset ← readWord 32
    let timezone ← readString
    return .time ⟨localTime, offset, timezone⟩
  | some .localDateTime => do
    let date ← decode
    let time ← decode
    return .localDateTime (← expectLocalDateTime date time)
  | some .dateTime => do
    let value ← decode
    let localDateTime ← expectDateTime value
    let offset ← readWord 32
    let timezone ← readString
    return .dateTime ⟨localDateTime, offset, timezone⟩
  | some .duration => do return .duration (← decodeDuration)
  | some .point => do return .point (← decodePoint)

def readType : Reader Error (Option StoredValueType) := do
  let byte ← readByte
  return StoredValueType.ofByte byte

/-- `DecodeValue` with a bound on the nesting. A call beyond as many as there are bytes has no byte left. -/
def decodeValue : (depth : Nat) → Reader Error Value
  | 0 => .fail (decodeError "stored value is truncated")
  | depth + 1 => do
    let type ← readType
    decodeContent (decodeValue depth) type

def serializeValue (value : Value) : Except Error Bytes := encodeValue value

def deserializeValue (data : Bytes) : Except Error Value :=
  if data.isEmpty then .error (decodeError "stored value is empty")
  else match decodeValue data.length data with
    | .error error => .error error
    | .ok (value, rest) =>
      if rest.isEmpty then .ok value else .error (decodeError "stored value contains trailing bytes")

theorem takes_word {width : Nat} (whole : 8 ∣ width) (word : BitVec width) :
    (readWord width).Takes (leWord word) word := by
  have taken : (readWord width).Takes (leWord word) (BitVec.ofNat width (leValue (leWord word))) :=
    (Takes.bytes _ (length_leWord word)).map
  rwa [leWord, leValue_leBytes (toNat_lt_bytes whole word), BitVec.ofNat_toNat, BitVec.setWidth_eq] at taken

theorem takes_word32 (word : BitVec 32) : (readWord 32).Takes (leWord word) word := takes_word (by decide) word

theorem takes_word64 (word : BitVec 64) : (readWord 64).Takes (leWord word) word := takes_word (by decide) word

theorem takes_byte (byte : UInt8) : readByte.Takes [byte] byte := by
  have taken : (Reader.bytes 1 (decodeError "stored value is truncated")).Takes [byte] [byte] := Takes.bytes _ rfl
  exact taken.map

theorem takes_flag (flag : Bool) : readFlag.Takes [flagByte flag] flag := by
  have taken : readFlag.Takes [flagByte flag] (flagByte flag != 0) := (takes_byte _).map
  cases flag <;> exact taken

theorem takes_size {size : Nat} (fits : size < 2 ^ 64) : readSize.Takes (sizeBytes size) size := by
  have taken : readSize.Takes (leWord (BitVec.ofNat 64 size)) (BitVec.ofNat 64 size).toNat := (takes_word64 _).map
  rw [leWord, BitVec.toNat_ofNat, Nat.mod_eq_of_lt fits] at taken
  rwa [sizeBytes, Nat.mod_eq_of_lt fits]

theorem takes_string {text : Bytes} (fits : text.length < 2 ^ 64) : readString.Takes (sizedBytes text) text :=
  (takes_size fits).bind (Takes.remaining _ Nat.le.refl (Takes.bytes _ rfl))

theorem takes_date (date : Date) : decodeDate.Takes (appendDate date) date :=
  (takes_word32 _).bind ((takes_word32 _).bind (takes_word32 _).map)

theorem takes_localTime (time : LocalTime) : decodeLocalTime.Takes (appendLocalTime time) time :=
  (takes_word32 _).bind ((takes_word32 _).bind ((takes_word32 _).bind ((takes_word32 _).bind (takes_flag _).map)))

theorem takes_duration (duration : Duration) : decodeDuration.Takes (appendDuration duration) duration :=
  (takes_word64 _).bind ((takes_word64 _).bind ((takes_word64 _).bind (takes_word32 _).map))

theorem takes_point {place : Point} (fits : place.coordinates.length < 2 ^ 64) :
    decodePoint.Takes (appendPoint place) place := by
  have length : place.coordinates.length * 8 = (place.coordinates.flatMap leWord).length := by
    simp
  have coordinates : ((readWord 64).many place.coordinates.length).Takes (place.coordinates.flatMap leWord)
      place.coordinates := Takes.many fun bits _ => takes_word64 bits
  exact (takes_word32 _).bind ((takes_size fits).bind (Takes.remaining _ length.le coordinates.map))

theorem StoredValueType.ofByte_byte (type : StoredValueType) : StoredValueType.ofByte type.byte = some type := by
  cases type <;> rfl

theorem takes_typed {depth : Nat} {type : StoredValueType} {content : Bytes} {value : Value}
    (taken : (decodeContent (decodeValue depth) (some type)).Takes content value) :
    (decodeValue (depth + 1)).Takes (type.byte :: content) value := by
  have typeTaken : readType.Takes [type.byte] (some type) := by
    rw [← StoredValueType.ofByte_byte type]
    exact (takes_byte _).map
  exact typeTaken.bind taken

theorem takes_time {depth : Nat} {time : Time} (fits : time.timezone.length < 2 ^ 64) :
    (decodeValue (depth + 2)).Takes (StoredValueType.time.byte :: appendTime time) (.time time) := by
  have inner : (decodeValue (depth + 1)).Takes (StoredValueType.localTime.byte :: appendLocalTime time.localTime)
      (.localTime time.localTime) := takes_typed (takes_localTime _).map
  have expected : (expectLocalTime (.localTime time.localTime)).Takes [] time.localTime := Takes.pure _
  exact takes_typed (inner.bind (expected.bind ((takes_word32 _).bind (takes_string fits).map)))

theorem takes_localDateTime (depth : Nat) (dateTime : LocalDateTime) :
    (decodeValue (depth + 2)).Takes (StoredValueType.localDateTime.byte :: appendLocalDateTime dateTime)
      (.localDateTime dateTime) := by
  have date : (decodeValue (depth + 1)).Takes (StoredValueType.date.byte :: appendDate dateTime.date)
      (.date dateTime.date) := takes_typed (takes_date _).map
  have time : (decodeValue (depth + 1)).Takes (StoredValueType.localTime.byte :: appendLocalTime dateTime.time)
      (.localTime dateTime.time) := takes_typed (takes_localTime _).map
  have expected : (expectLocalDateTime (.date dateTime.date) (.localTime dateTime.time)).Takes [] dateTime :=
    Takes.pure _
  have content : (decodeContent (decodeValue (depth + 1)) (some .localDateTime)).Takes
      ((StoredValueType.date.byte :: appendDate dateTime.date) ++
        ((StoredValueType.localTime.byte :: appendLocalTime dateTime.time) ++ [])) (.localDateTime dateTime) :=
    date.bind (time.bind expected.map)
  exact takes_typed content

theorem length_le_encodeValues : ∀ {items : List Value} {encoded : Bytes}, encodeValues items = .ok encoded →
    items.length ≤ encoded.length
  | [], _, _ => Nat.zero_le _
  | item :: rest, _, done => by
    simp only [encodeValues, bind_eq_ok] at done
    obtain ⟨_, first, _, others, last⟩ := done
    obtain ⟨_, _, -, rfl⟩ := encodeValue_head first
    obtain rfl := pure_eq_ok.mp last
    have more := length_le_encodeValues others
    simp only [length_append, length_cons]
    omega

mutual

theorem takes_encodeValue : ∀ {value : Value} {encoded : Bytes} {depth : Nat}, value.sized →
    encodeValue value = .ok encoded → encoded.length ≤ depth → (decodeValue depth).Takes encoded value := by
  intro value encoded depth sized done enough
  have positive : 0 < encoded.length := by
    obtain ⟨_, _, -, rfl⟩ := encodeValue_head done
    exact Nat.succ_pos _
  obtain ⟨depth, rfl⟩ : ∃ less, depth = less + 1 := ⟨depth - 1, by omega⟩
  cases value with
  | list items =>
    rw [encodeValue, bind_eq_ok] at done
    obtain ⟨inner, innerDone, last⟩ := done
    obtain rfl := pure_eq_ok.mp last
    rw [Value.sized, Bool.and_eq_true, decide_eq_true_eq] at sized
    have shallower : inner.length ≤ depth := by
      simp only [length_cons, length_append] at enough
      omega
    have taken := takes_encodeValues sized.2 innerDone shallower
    exact takes_typed ((takes_size sized.1).bind
      (Takes.remaining _ (length_le_encodeValues innerDone) taken.map))
  | entity => cases done
  | null =>
    cases done
    exact takes_typed (Takes.pure _)
  | bool flag =>
    cases done
    exact takes_typed (takes_flag flag).map
  | integer value =>
    cases done
    exact takes_typed (takes_word64 value).map
  | double bits =>
    cases done
    exact takes_typed (takes_word64 bits).map
  | string text =>
    cases done
    rw [Value.sized, decide_eq_true_eq] at sized
    exact takes_typed (takes_string sized).map
  | date value =>
    cases done
    exact takes_typed (takes_date value).map
  | localTime value =>
    cases done
    exact takes_typed (takes_localTime value).map
  | duration value =>
    cases done
    exact takes_typed (takes_duration value).map
  | point value =>
    cases done
    rw [Value.sized, decide_eq_true_eq] at sized
    exact takes_typed (takes_point sized).map
  -- The parts of these carry their own types and are read one or two calls deeper.
  | time value =>
    cases done
    rw [Value.sized, decide_eq_true_eq] at sized
    obtain ⟨depth, rfl⟩ : ∃ less, depth = less + 1 := ⟨depth - 1, by simp [appendTime] at enough; omega⟩
    exact takes_time sized
  | localDateTime value =>
    cases done
    obtain ⟨depth, rfl⟩ : ∃ less, depth = less + 1 := ⟨depth - 1, by simp [appendLocalDateTime] at enough; omega⟩
    exact takes_localDateTime depth value
  | dateTime value =>
    cases done
    rw [Value.sized, decide_eq_true_eq] at sized
    obtain ⟨depth, rfl⟩ : ∃ less, depth = less + 2 :=
      ⟨depth - 2, by simp [appendDateTime, appendLocalDateTime] at enough; omega⟩
    have inner := takes_localDateTime depth value.localDateTime
    have expected : (expectDateTime (.localDateTime value.localDateTime)).Takes [] value.localDateTime :=
      Takes.pure _
    exact takes_typed (inner.bind (expected.bind ((takes_word32 _).bind (takes_string sized).map)))

theorem takes_encodeValues : ∀ {items : List Value} {encoded : Bytes} {depth : Nat}, Value.sizedList items →
    encodeValues items = .ok encoded → encoded.length ≤ depth →
      ((decodeValue depth).many items.length).Takes encoded items
  | [], _, _, _, done, _ => by
    cases done
    exact Takes.pure []
  | item :: rest, _, depth, sized, done, enough => by
    simp only [encodeValues, bind_eq_ok] at done
    obtain ⟨_, first, _, others, last⟩ := done
    obtain rfl := pure_eq_ok.mp last
    rw [Value.sizedList, Bool.and_eq_true] at sized
    rw [length_append] at enough
    have head : (decodeValue depth).Takes _ item := takes_encodeValue sized.1 first (by omega)
    have tail : ((decodeValue depth).many rest.length).Takes _ rest := takes_encodeValues sized.2 others (by omega)
    exact head.bind tail.map

end

/-! ## Nothing behind a value is looked at -/

theorem local_word (width : Nat) : (readWord width).Local (width / 8) :=
  (Local.bytes _ _).map

theorem local_byte : readByte.Local 1 := (Local.bytes 1 _).map

theorem local_flag : readFlag.Local 1 := local_byte.map

theorem local_size : readSize.Local 8 := (local_word 64).map

theorem local_string : readString.Local 0 := by
  let short := decodeError "stored value contains a truncated string"
  have text : ∀ size, (Reader.remaining size short >>= fun _ => Reader.bytes size short).Local 0 := by
    intro size
    have read : ((fun _ => Reader.bytes size short) ()).Local size := Local.bytes size short
    exact (Local.remaining short read).any
  exact (local_size.bind text).any

theorem local_date : decodeDate.Local 0 :=
  ((local_word 32).bind fun _ => (local_word 32).bind fun _ => (local_word 32).map).any

theorem local_localTime : decodeLocalTime.Local 0 :=
  ((local_word 32).bind fun _ => (local_word 32).bind fun _ => (local_word 32).bind fun _ => (local_word 32).bind fun _ =>
    local_flag.map).any

theorem local_duration : decodeDuration.Local 0 :=
  ((local_word 64).bind fun _ => (local_word 64).bind fun _ => (local_word 64).bind fun _ => (local_word 32).map).any

theorem local_point : decodePoint.Local 0 := by
  have coordinates : ∀ (srid : BitVec 32) (size : Nat),
      (Reader.remaining (size * 8) (decodeError "stored point is too large") >>= fun _ => do
        let coordinates ← (readWord 64).many size
        return (⟨srid, coordinates⟩ : Point)).Local 0 := fun srid size =>
    (Local.remaining _ ((local_word 64).many size).map).any
  exact ((local_word 32).bind fun srid => local_size.bind (coordinates srid)).any

theorem local_expectLocalTime (value : Value) : (expectLocalTime value).Local 0 := by
  cases value with
  | localTime => exact Local.pure _
  | _ => exact Local.fail _ 0

theorem local_expectLocalDateTime (date time : Value) : (expectLocalDateTime date time).Local 0 := by
  cases date with
  | date =>
    cases time with
    | localTime => exact Local.pure _
    | _ => exact Local.fail _ 0
  | _ => exact Local.fail _ 0

theorem local_expectDateTime (value : Value) : (expectDateTime value).Local 0 := by
  cases value with
  | localDateTime => exact Local.pure _
  | _ => exact Local.fail _ 0

theorem local_content {decode : Reader Error Value} (inner : decode.Local 1) (type : Option StoredValueType) :
    (decodeContent decode type).Local 0 := by
  have innerAny : decode.Local 0 := inner.any
  have word : (readWord 32).Local 0 := (local_word 32).any
  cases type with
  | none => exact Local.fail _ 0
  | some type =>
    cases type with
    | null => exact Local.pure _
    | bool => exact local_flag.map.any
    | integer | double => exact (local_word 64).map.any
    | string => exact local_string.map
    | list =>
      -- As many values as the size says are taken behind the check, each with a byte at least.
      have items : ∀ size : Nat, (Reader.remaining size (decodeError "stored list is too large") >>= fun _ => do
          let items ← decode.many size
          return Value.list items).Local 0 := by
        intro size
        have many : (decode.many size >>= fun items => (pure (Value.list items) : Reader Error Value)).Local (size * 1) :=
          (inner.many size).map
        rw [Nat.mul_one] at many
        exact (Local.remaining _ many).any
      exact (local_size.bind items).any
    | date => exact local_date.map
    | localTime => exact local_localTime.map
    | time =>
      exact innerAny.bind fun value => (local_expectLocalTime value).bind fun _ => word.bind fun _ =>
        local_string.map
    | localDateTime =>
      exact innerAny.bind fun date => innerAny.bind fun time => (local_expectLocalDateTime date time).map
    | dateTime =>
      exact innerAny.bind fun value => (local_expectDateTime value).bind fun _ => word.bind fun _ =>
        local_string.map
    | duration => exact local_duration.map
    | point => exact local_point.map

theorem local_type : readType.Local 1 := local_byte.map

theorem local_value (depth : Nat) : (decodeValue depth).Local 1 := by
  induction depth with
  | zero => exact Local.fail _ 1
  | succ depth ih => exact local_type.bind (local_content ih)

theorem agree_content {first second : Reader Error Value} {length : Nat} (same : first.Agree second length)
    (inner : second.Local 0) (type : Option StoredValueType) :
    (decodeContent first type).Agree (decodeContent second type) length := by
  have rest : ∀ {Result : Type} (reader : Reader Error Result), reader.Agree reader length :=
    fun reader => Agree.refl reader length
  cases type with
  | none => exact rest _
  | some type =>
    cases type with
    | list =>
      have size : readSize.Local 0 := local_size.any
      have items : ∀ size : Nat, (do let items ← first.many size; return Value.list items).Agree
          (do let items ← second.many size; return Value.list items) length := fun size =>
        Agree.bind 0 (same.many inner size) (inner.many size).any fun _ => rest _
      refine Agree.bind 0 (rest readSize) size fun size input short => ?_
      show Reader.bind _ _ input = Reader.bind _ _ input
      rw [Reader.bind, Reader.bind, Reader.remaining]
      split
      next checked =>
        split at checked
        · cases checked
        · cases checked
          exact items size input short
      · rfl
    | time => exact Agree.bind 0 same inner fun _ => rest _
    | localDateTime => exact Agree.bind 0 same inner fun _ => Agree.bind 0 same inner fun _ => rest _
    | dateTime => exact Agree.bind 0 same inner fun _ => rest _
    | _ => exact rest _

theorem agree_value : ∀ {length first second : Nat}, length ≤ first → length ≤ second →
    (decodeValue first).Agree (decodeValue second) length := by
  intro length
  induction length with
  | zero =>
    intro first second _ _ input short
    obtain rfl := eq_nil_of_length_eq_zero (Nat.le_zero.mp short)
    -- Without a byte left every call fails alike.
    have failed : ∀ depth, decodeValue depth [] = .error (decodeError "stored value is truncated") := by
      intro depth
      cases depth <;> rfl
    rw [failed, failed]
  | succ length ih =>
    intro first second firstEnough secondEnough
    obtain ⟨first, rfl⟩ : ∃ less, first = less + 1 := ⟨first - 1, by omega⟩
    obtain ⟨second, rfl⟩ : ∃ less, second = less + 1 := ⟨second - 1, by omega⟩
    have inner : (decodeValue second).Local 0 := (local_value second).any
    have shallower := ih (Nat.le_of_succ_le_succ firstEnough) (Nat.le_of_succ_le_succ secondEnough)
    exact Agree.bind 1 (Agree.refl readType _) local_type (agree_content shallower inner)

theorem deserializeValue_beginning {value : Value} {front back : Bytes} (sized : value.sized)
    (stored : serializeValue value = .ok (front ++ back)) (more : back ≠ []) :
    ∃ error, deserializeValue front = .error error := by
  rw [deserializeValue]
  split
  · exact ⟨_, rfl⟩
  cases read : decodeValue front.length front with
  | error error => exact ⟨error, rfl⟩
  | ok pair =>
    obtain ⟨other, rest⟩ := pair
    have trailing : rest.isEmpty = false := by
      rw [isEmpty_eq_false_iff]
      rintro rfl
      have enough : front.length ≤ (front ++ back).length := by
        rw [length_append]
        omega
      rw [agree_value Nat.le.refl enough front Nat.le.refl] at read
      obtain ⟨_, split, -, takenFront⟩ := local_value _ read
      obtain rfl := split.trans (append_nil _)
      have whole := takes_encodeValue sized stored Nat.le.refl []
      rw [append_nil, takenFront back] at whole
      cases whole
      exact more rfl
    simp [trailing]

mutual

/-- No map, node, relationship or path in the value. -/
def Value.storable : Value → Bool
  | .entity _ _ => false
  | .list items => Value.storableList items
  | _ => true

def Value.storableList : List Value → Bool
  | [] => true
  | item :: rest => Value.storable item && Value.storableList rest

end

mutual

theorem encodeValue_accepts : ∀ value : Value, (∃ data, encodeValue value = .ok data) ↔ value.storable
  | .entity _ _ => by simp [encodeValue, Value.storable]
  | .list items => by
    rw [Value.storable, ← encodeValues_accepts items]
    simp only [encodeValue, bind_eq_ok, pure_eq_ok]
    constructor
    · rintro ⟨_, encoded, done, -⟩
      exact ⟨encoded, done⟩
    · rintro ⟨encoded, done⟩
      exact ⟨_, encoded, done, rfl⟩
  | .null | .bool _ | .integer _ | .double _ | .string _ | .date _ | .localTime _ | .time _ | .localDateTime _
  | .dateTime _ | .duration _ | .point _ => by simp [encodeValue, Value.storable]

theorem encodeValues_accepts : ∀ items : List Value,
    (∃ data, encodeValues items = .ok data) ↔ Value.storableList items
  | [] => by simp [encodeValues, Value.storableList]
  | item :: rest => by
    rw [Value.storableList, Bool.and_eq_true, ← encodeValue_accepts item, ← encodeValues_accepts rest]
    constructor
    · rintro ⟨data, done⟩
      rw [encodeValues, bind_eq_ok] at done
      obtain ⟨first, head, more⟩ := done
      obtain ⟨others, tail, -⟩ := bind_eq_ok.mp more
      exact ⟨⟨first, head⟩, others, tail⟩
    · rintro ⟨⟨first, head⟩, others, tail⟩
      exact ⟨first ++ others, by rw [encodeValues, head, tail]; rfl⟩

end

/-- `SerializeValue` accepts every value without an entity in it, and what it writes is read back as the value it was
written for. Reading any bytes ends, with a value or an error: no call is made that the bound on the nesting would
forbid. It takes the bytes up to the end of the value, and does so whatever follows them. No part of a stored value and
no stored value with bytes behind it is read. -/
theorem deserializeValue_serializeValue :
    (∀ value : Value, (∃ data, serializeValue value = .ok data) ↔ value.storable) ∧
    (∀ (value : Value) (data : Bytes), value.sized → serializeValue value = .ok data →
      deserializeValue data = .ok value) ∧
    (∀ (data : Bytes) (depth : Nat), data.length ≤ depth → decodeValue depth data = decodeValue data.length data) ∧
    (∀ (depth : Nat) (data : Bytes) (value : Value) (rest : Bytes), decodeValue depth data = .ok (value, rest) →
      ∃ read, data = read ++ rest ∧ ∀ others, decodeValue depth (read ++ others) = .ok (value, others)) ∧
    (∀ (value : Value) (front back : Bytes), value.sized → serializeValue value = .ok (front ++ back) → back ≠ [] →
      ∃ error, deserializeValue front = .error error) ∧
    ∀ (value : Value) (data extra : Bytes), value.sized → serializeValue value = .ok data → extra ≠ [] →
      ∃ error, deserializeValue (data ++ extra) = .error error := by
  have read : ∀ (value : Value) (data extra : Bytes), value.sized → serializeValue value = .ok data →
      deserializeValue (data ++ extra) =
        if extra.isEmpty then .ok value else .error (decodeError "stored value contains trailing bytes") := by
    intro value data extra sized stored
    have enough : data.length ≤ (data ++ extra).length := by
      rw [length_append]
      omega
    have taken := takes_encodeValue sized stored enough extra
    obtain ⟨_, _, -, rfl⟩ := encodeValue_head stored
    rw [deserializeValue, taken]
    rfl
  refine ⟨encodeValue_accepts, ?_, ?_, ?_, ?_, ?_⟩
  · intro value data sized stored
    have whole := read value data [] sized stored
    rwa [append_nil] at whole
  · intro data depth enough
    exact agree_value enough Nat.le.refl data Nat.le.refl
  · intro depth data value rest done
    obtain ⟨taken, split, -, takes⟩ := local_value depth done
    exact ⟨taken, split, takes⟩
  · intro value front back sized stored more
    exact deserializeValue_beginning sized stored more
  · intro value data extra sized stored more
    rw [read value data extra sized stored]
    cases extra with
    | nil => exact absurd rfl more
    | cons => exact ⟨_, rfl⟩

/-- A list with a string of one zero byte and an empty list, and a list with a node in it, which is refused. -/
theorem deserializeValue_serializeValue_nested :
    let value : Value := .list [.string [0], .list []]
    let data : Bytes := [5, 2, 0, 0, 0, 0, 0, 0, 0, 4, 1, 0, 0, 0, 0, 0, 0, 0, 0, 5, 0, 0, 0, 0, 0, 0, 0, 0]
    (∃ written, serializeValue value = .ok written) ∧ serializeValue value = .ok data ∧
      deserializeValue data = .ok value ∧ (∃ error, deserializeValue (data.take 27) = .error error) ∧
      ¬ ∃ written, serializeValue (.list [.entity .node 3]) = .ok written := by
  obtain ⟨accepts, reads, -, -, shorter, -⟩ := deserializeValue_serializeValue
  refine ⟨(accepts _).mpr (by decide), by decide +kernel, reads _ _ (by decide) (by decide +kernel),
    shorter (.list [.string [0], .list []]) _ [0] (by decide) (by decide +kernel) (by decide), ?_⟩
  rw [accepts]
  decide

end RocksGraph.Storage
