import RocksGraph.Foundation.Encoding

/-! Readers of byte strings.

A reader takes a value from the front of its input, or fails. It takes some bytes
when it does so whatever follows them; it is local when all it takes from an
input are such bytes. The encoding of a value that a local reader takes is then
neither the beginning nor a continuation of another one. -/

set_option autoImplicit false

namespace RocksGraph.Foundation

open List

def Reader (Error Value : Type) := Bytes → Except Error (Value × Bytes)

namespace Reader

variable {Error Value Result : Type}

def pure (value : Value) : Reader Error Value := fun input => .ok (value, input)

def fail (error : Error) : Reader Error Value := fun _ => .error error

def bind (reader : Reader Error Value) (next : Value → Reader Error Result) : Reader Error Result := fun input =>
  match reader input with
  | .ok (value, rest) => next value rest
  | .error error => .error error

instance : Monad (Reader Error) where
  pure := pure
  bind := bind

def bytes (count : Nat) (short : Error) : Reader Error Bytes := fun input =>
  if input.length < count then .error short else .ok (input.take count, input.drop count)

def remaining (count : Nat) (short : Error) : Reader Error Unit := fun input =>
  if input.length < count then .error short else .ok ((), input)

def many (reader : Reader Error Value) : Nat → Reader Error (List Value)
  | 0 => pure []
  | count + 1 => reader.bind fun value => (many reader count).bind fun values => pure (value :: values)

/-- The reader takes these bytes, whatever follows them. -/
def Takes (reader : Reader Error Value) (encoded : Bytes) (value : Value) : Prop :=
  ∀ rest, reader (encoded ++ rest) = .ok (value, rest)

theorem Takes.pure (value : Value) : (Reader.pure value : Reader Error Value).Takes [] value := fun _ => rfl

variable {reader second : Reader Error Value} {next : Value → Reader Error Result} {value : Value} {result : Result}
  {encoded : Bytes}

theorem Takes.bind {first second : Bytes} (taken : reader.Takes first value)
    (continued : (next value).Takes second result) :
    (reader >>= next).Takes (first ++ second) result := by
  intro rest
  show Reader.bind reader next _ = _
  rw [append_assoc, Reader.bind, taken (second ++ rest)]
  exact continued rest

variable {change : Value → Result}

theorem Takes.map (taken : reader.Takes encoded value) :
    (reader >>= fun read => Pure.pure (change read)).Takes encoded (change value) := by
  have mapped : (reader >>= fun read => Pure.pure (change read)).Takes (encoded ++ []) (change value) :=
    taken.bind (Takes.pure (change value))
  rwa [append_nil] at mapped

variable {count : Nat}

theorem Takes.bytes (short : Error) (length : encoded.length = count) :
    (Reader.bytes count short).Takes encoded encoded := by
  intro rest
  have enough : ¬ (encoded ++ rest).length < count := by
    rw [length_append]
    omega
  rw [Reader.bytes, if_neg enough, take_left' length, drop_left' length]

theorem Takes.remaining (short : Error) {next : Unit → Reader Error Result}
    (enough : count ≤ encoded.length) (continued : (next ()).Takes encoded result) :
    (Reader.remaining count short >>= next).Takes encoded result := by
  intro rest
  have left : ¬ (encoded ++ rest).length < count := by
    rw [length_append]
    omega
  show Reader.bind (Reader.remaining count short) next _ = _
  rw [Reader.bind, Reader.remaining, if_neg left]
  exact continued rest

theorem Takes.many {encode : Value → Bytes} {values : List Value}
    (each : ∀ value ∈ values, reader.Takes (encode value) value) :
    (reader.many values.length).Takes (values.flatMap encode) values := by
  induction values with
  | nil => exact Takes.pure []
  | cons value rest ih =>
    rw [forall_mem_cons] at each
    exact each.1.bind (ih each.2).map

/-- What the reader takes from an input are bytes, at least so many, that it takes whatever follows them. -/
def Local (reader : Reader Error Value) (least : Nat) : Prop :=
  ∀ ⦃input : Bytes⦄ ⦃value : Value⦄ ⦃rest : Bytes⦄, reader input = .ok (value, rest) →
    ∃ encoded, input = encoded ++ rest ∧ least ≤ encoded.length ∧ reader.Takes encoded value

theorem Local.weaken {least less : Nat} (isLocal : reader.Local least) (fewer : less ≤ least) :
    reader.Local less := by
  intro input value rest read
  obtain ⟨encoded, split, long, taken⟩ := isLocal read
  exact ⟨encoded, split, fewer.trans long, taken⟩

variable {least : Nat}

theorem Local.any (isLocal : reader.Local least) : reader.Local 0 := isLocal.weaken (Nat.zero_le _)

theorem Local.pure (value : Value) : (Reader.pure value : Reader Error Value).Local 0 := by
  intro input read rest done
  cases done
  exact ⟨[], rfl, Nat.zero_le _, Takes.pure value⟩

theorem Local.fail (error : Error) (least : Nat) : (Reader.fail error : Reader Error Value).Local least := by
  intro input read rest done
  cases done

theorem bind_eq_ok {input rest : Bytes} : (reader >>= next) input = .ok (result, rest) ↔
      ∃ value middle, reader input = .ok (value, middle) ∧ next value middle = .ok (result, rest) := by
  show Reader.bind reader next input = _ ↔ _
  rw [Reader.bind]
  cases read : reader input with
  | error => simp
  | ok pair =>
    obtain ⟨value, middle⟩ := pair
    simp

theorem Local.bind {first second : Nat} (isLocal : reader.Local first)
    (continued : ∀ value, (next value).Local second) : (reader >>= next).Local (first + second) := by
  intro input result rest done
  obtain ⟨value, middle, read, readNext⟩ := bind_eq_ok.mp done
  obtain ⟨front, rfl, frontLong, frontTaken⟩ := isLocal read
  obtain ⟨back, rfl, backLong, backTaken⟩ := continued value readNext
  refine ⟨front ++ back, (append_assoc _ _ _).symm, ?_, frontTaken.bind backTaken⟩
  rw [length_append]
  omega

theorem Local.map (isLocal : reader.Local least) :
    (reader >>= fun read => Pure.pure (change read)).Local least :=
  isLocal.bind fun _ => Local.pure _

theorem Local.bytes (count : Nat) (short : Error) : (Reader.bytes count short).Local count := by
  intro input value rest done
  rw [Reader.bytes] at done
  split at done
  · cases done
  rename_i enough
  cases done
  have length : (input.take count).length = count := length_take_of_le (not_lt.mp enough)
  exact ⟨input.take count, (take_append_drop count input).symm, length.ge, Takes.bytes short length⟩

/-- The check for the bytes left looks ahead, but not further than the bytes taken behind it. -/
theorem Local.remaining (short : Error) {next : Unit → Reader Error Result}
    (continued : (next ()).Local count) : (Reader.remaining count short >>= next).Local count := by
  intro input result rest done
  obtain ⟨_, middle, read, readNext⟩ := bind_eq_ok.mp done
  rw [Reader.remaining] at read
  split at read
  · cases read
  cases read
  obtain ⟨encoded, split, long, taken⟩ := continued readNext
  exact ⟨encoded, split, long, Takes.remaining short long taken⟩

theorem Local.many (isLocal : reader.Local least) (count : Nat) :
    (reader.many count).Local (count * least) := by
  induction count with
  | zero =>
    rw [Nat.zero_mul]
    exact Local.pure []
  | succ count ih =>
    rw [Nat.succ_mul, add_comm (count * least) least]
    exact isLocal.bind fun _ => ih.map

def Agree (first second : Reader Error Value) (length : Nat) : Prop :=
  ∀ input : Bytes, input.length ≤ length → first input = second input

variable {first : Reader Error Value}

theorem Agree.bind {after : Value → Reader Error Result} {length : Nat}
    (least : Nat) (same : first.Agree second (length + least)) (isLocal : second.Local least)
    (continued : ∀ value, (next value).Agree (after value) length) :
    (first >>= next).Agree (second >>= after) (length + least) := by
  intro input short
  show Reader.bind first next input = Reader.bind second after input
  rw [Reader.bind, Reader.bind, same input short]
  cases read : second input with
  | error => rfl
  | ok pair =>
    obtain ⟨value, rest⟩ := pair
    obtain ⟨encoded, rfl, long, -⟩ := isLocal read
    rw [length_append] at short
    exact continued value rest (by omega)

theorem Agree.refl (reader : Reader Error Value) (length : Nat) : reader.Agree reader length := fun _ _ => rfl

theorem Agree.many {length : Nat} (same : first.Agree second length)
    (isLocal : second.Local 0) (count : Nat) : (first.many count).Agree (second.many count) length := by
  induction count with
  | zero => exact Agree.refl _ length
  | succ count ih =>
    have rest : ∀ value, (first.many count >>= fun values => Pure.pure (value :: values)).Agree
        (second.many count >>= fun values => Pure.pure (value :: values)) length := by
      intro value
      exact Agree.bind 0 ih (isLocal.many count).any fun values => Agree.refl _ length
    exact Agree.bind 0 same isLocal rest

end Reader

end RocksGraph.Foundation
