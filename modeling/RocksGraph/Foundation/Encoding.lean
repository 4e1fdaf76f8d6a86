import Mathlib.Data.List.Basic
import Mathlib.Tactic.NormNum

/-! Byte encodings that end where they say.

An encoding delimits when the bytes after it cannot be taken for a part of it:
equal bytes with anything behind them come from equal values. Encodings of this
kind can be put one after the other. -/

set_option autoImplicit false

namespace RocksGraph.Foundation

open List

abbrev Bytes := List UInt8

variable {Value : Type}

/-- Two encodings followed by any bytes agree only for equal values. -/
def Delimits (encode : Value → Bytes) : Prop :=
  ∀ ⦃first second : Value⦄ ⦃rest others : Bytes⦄,
    encode first ++ rest = encode second ++ others → first = second ∧ rest = others

def leBytes : Nat → Nat → Bytes
  | 0, _ => []
  | count + 1, number => UInt8.ofNat number :: leBytes count (number / 256)

variable (count number : Nat)

def beBytes : Bytes := (leBytes count number).reverse

@[simp] theorem length_leBytes : (leBytes count number).length = count := by
  induction count generalizing number with
  | zero => rfl
  | succ count ih => rw [leBytes, length_cons, ih]

@[simp] theorem length_beBytes : (beBytes count number).length = count := by
  rw [beBytes, length_reverse, length_leBytes]

def leValue : Bytes → Nat
  | [] => 0
  | byte :: rest => byte.toNat + 256 * leValue rest

def beValue (bytes : Bytes) : Nat := leValue bytes.reverse

theorem leValue_leBytes {count number : Nat} (fits : number < 256 ^ count) :
    leValue (leBytes count number) = number := by
  induction count generalizing number with
  | zero =>
    rw [pow_zero, Nat.lt_one_iff] at fits
    rw [leBytes, leValue, fits]
  | succ count ih =>
    rw [leBytes, leValue, ih (Nat.div_lt_of_lt_mul (by rwa [← pow_succ'])), UInt8.toNat_ofNat']
    omega

def leWord {width : Nat} (word : BitVec width) : Bytes := leBytes (width / 8) word.toNat

def beWord {width : Nat} (word : BitVec width) : Bytes := beBytes (width / 8) word.toNat

variable {width : Nat}

theorem toNat_lt_bytes (whole : 8 ∣ width) (word : BitVec width) : word.toNat < 256 ^ (width / 8) := by
  obtain ⟨count, rfl⟩ := whole
  have bound := word.isLt
  rwa [pow_mul, Nat.mul_div_cancel_left count (by decide : 0 < 8)] at *

theorem beValue_beWord (whole : 8 ∣ width) (word : BitVec width) :
    beValue (beWord word) = word.toNat := by
  rw [beValue, beWord, beBytes, reverse_reverse]
  exact leValue_leBytes (toNat_lt_bytes whole word)

@[simp] theorem length_leWord (word : BitVec width) : (leWord word).length = width / 8 :=
  length_leBytes _ _

@[simp] theorem length_beWord (word : BitVec width) : (beWord word).length = width / 8 :=
  length_beBytes _ _

theorem beWord_delimits (whole : 8 ∣ width) : Delimits (beWord : BitVec width → Bytes) := by
  intro first second rest others same
  obtain ⟨equal, tail⟩ := append_inj same ((length_beWord first).trans (length_beWord second).symm)
  have value := congrArg beValue equal
  rw [beValue_beWord whole, beValue_beWord whole] at value
  exact ⟨BitVec.eq_of_toNat_eq value, tail⟩

def sizeBytes (size : Nat) : Bytes := leBytes 8 (size % 2 ^ 64)

def sizedBytes (text : Bytes) : Bytes := sizeBytes text.length ++ text

/-- A zero byte is marked, so that two of them end a string. -/
def escapeByte (byte : UInt8) : Bytes := if byte = 0 then [0, 0xFF] else [byte]

def escaped (text : Bytes) : Bytes := text.flatMap escapeByte ++ [0, 0]

theorem escapeByte_delimits : Delimits escapeByte := by
  intro first second rest others same
  simp only [escapeByte] at same
  split at same <;> split at same <;> rename_i left right <;>
    simp only [cons_append, cons.injEq, true_and] at same
  · exact ⟨left.trans right.symm, same⟩
  · exact absurd same.1.symm right
  · exact absurd same.1 left
  · exact same

theorem escapeByte_append_ne (byte : UInt8) (rest others : Bytes) : escapeByte byte ++ rest ≠ 0 :: 0 :: others := by
  intro same
  rw [escapeByte] at same
  split at same <;> rename_i zero
  · have marked : (0xFF : UInt8) = 0 := (cons.inj (cons.inj same).2).1
    cases marked
  · exact zero (cons.inj same).1

theorem escaped_cons (byte : UInt8) (text rest : Bytes) :
    escaped (byte :: text) ++ rest = escapeByte byte ++ (escaped text ++ rest) := by
  simp [escaped]

theorem escaped_delimits : Delimits escaped := by
  intro first
  induction first with
  | nil =>
    intro second rest others same
    cases second with
    | nil => exact ⟨rfl, append_cancel_left same⟩
    | cons byte text =>
      rw [escaped_cons] at same
      exact absurd same.symm (escapeByte_append_ne byte _ rest)
  | cons byte text ih =>
    intro second rest others same
    rw [escaped_cons] at same
    cases second with
    | nil => exact absurd same (escapeByte_append_ne byte _ others)
    | cons other more =>
      rw [escaped_cons] at same
      obtain ⟨rfl, sameTail⟩ := escapeByte_delimits same
      obtain ⟨rfl, sameRest⟩ := ih sameTail
      exact ⟨rfl, sameRest⟩

end RocksGraph.Foundation
