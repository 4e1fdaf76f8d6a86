import Mathlib.Data.List.TakeWhile
import RocksGraph.Foundation.Transition
import RocksGraph.Raft.Tracker

/-! The ring buffer behind the inflight messages of a peer (`tracker/inflights.h`).

The ring wraps at its size, while the vector behind it grows by doubling. The messages reach over
the end of the vector only when it has its full size, so that the ring is the queue of the tracker. -/

set_option autoImplicit false

namespace RocksGraph.Eraft

open Foundation List

inductive InflightCall where
  | add (index bytes : Nat)
  | freeLE (upto : Nat)
  | reset

def Inflights.step (queue : Inflights) : InflightCall → Option Inflights
  | .add index bytes => queue.add index bytes
  | .freeLE upto => some (queue.freeLE upto)
  | .reset => some queue.reset

/-- The bytes in flight stay below what 64 bits can count. -/
def Inflights.counts (queue : Inflights) : InflightCall → Bool
  | .add _ bytes => queue.bytes + bytes < 2 ^ 64
  | _ => true

/-- `struct Inflights`; a message is its last index and its bytes. -/
structure InflightRing where
  start : Nat := 0
  count : Nat := 0
  bytes : Nat := 0
  size : Nat
  maxBytes : Nat
  buffer : List (Nat × Nat) := []

namespace InflightRing

def new (size maxBytes : Nat) : InflightRing := { size, maxBytes }

variable (ring : InflightRing)

def reset : InflightRing := { ring with start := 0, count := 0, bytes := 0 }

def full : Bool := ring.count = ring.size || (ring.maxBytes ≠ 0 && ring.bytes ≥ ring.maxBytes)

def grow : InflightRing :=
  let newSize := ring.buffer.length * 2
  let newSize := if newSize = 0 then 1 else if newSize > ring.size then ring.size else newSize
  { ring with buffer := ring.buffer.take newSize ++ replicate (newSize - ring.buffer.length) (0, 0) }

def wrap (index : Nat) : Nat := if index ≥ ring.size then index - ring.size else index

/-- Fails for a full ring, and where it would write behind the end of the vector. -/
def add (index bytes : Nat) : Option InflightRing :=
  if ring.full then none
  else
    let next := ring.wrap (ring.start + ring.count)
    let grown := if next ≥ ring.buffer.length then ring.grow else ring
    if next < grown.buffer.length then
      some { grown with
        buffer := grown.buffer.set next (index, bytes)
        count := ring.count + 1
        bytes := (ring.bytes + bytes) % 2 ^ 64 }
    else none

/-- The loop of `FreeLE`, with what is left of the messages, the index of the first and the bytes
that have been freed. -/
def freeLoop (upto : Nat) : (left idx bytes : Nat) → Option (Nat × Nat × Nat)
  | 0, idx, bytes => some (0, idx, bytes)
  | left + 1, idx, bytes => do
    let sent ← ring.buffer[idx]?
    if upto < sent.1 then return (left + 1, idx, bytes)
    else freeLoop upto left (ring.wrap (idx + 1)) ((bytes + sent.2) % 2 ^ 64)

def freeLE (upto : Nat) : Option InflightRing :=
  if ring.count = 0 then some ring
  else do
    let first ← ring.buffer[ring.start]?
    if upto < first.1 then return ring
    else
      let (count, idx, bytes) ← ring.freeLoop upto ring.count ring.start 0
      return { ring with
        start := if count = 0 then 0 else idx
        count
        bytes := (ring.bytes + 2 ^ 64 - bytes) % 2 ^ 64 }

def step : InflightCall → Option InflightRing
  | .add index bytes => ring.add index bytes
  | .freeLE upto => ring.freeLE upto
  | .reset => some ring.reset

/-- The messages stand in the ring from an index on. -/
def Window (idx : Nat) (messages : List (Nat × Nat)) : Prop :=
  ∀ offset sent, messages[offset]? = some sent → ring.buffer[ring.wrap (idx + offset)]? = some sent

structure Holds (queue : Inflights) : Prop where
  messages : ring.Window ring.start queue.buffer
  count : ring.count = queue.buffer.length
  bytes : ring.bytes = queue.bytes
  size : ring.size = queue.size
  maxBytes : ring.maxBytes = queue.maxBytes

/-- The vector has its full size before the messages wrap. -/
structure Fits : Prop where
  length_le : ring.buffer.length ≤ ring.size
  placed : ring.start + ring.count ≤ ring.buffer.length ∨
    ring.buffer.length = ring.size ∧ ring.start < ring.size ∧ ring.count ≤ ring.size
  empty : ring.count = 0 → ring.start = 0
  small : ring.bytes < 2 ^ 64

theorem wrap_eq (index : Nat) :
    ring.wrap index = index ∧ index < ring.size ∨ ring.wrap index + ring.size = index := by
  unfold wrap
  split <;> omega

variable {ring : InflightRing} {queue : Inflights} {messages : List (Nat × Nat)} {idx : Nat}

theorem wrap_wrap {count offset : Nat} (inside : idx < ring.size)
    (fits : count + offset ≤ ring.size) :
    ring.wrap (ring.wrap (idx + count) + offset) = ring.wrap (idx + (count + offset)) := by
  have := ring.wrap_eq (idx + count)
  have := ring.wrap_eq (ring.wrap (idx + count) + offset)
  have := ring.wrap_eq (idx + (count + offset))
  omega

theorem Window.drop (window : ring.Window idx messages) (inside : idx < ring.size)
    (fits : messages.length ≤ ring.size) (count : Nat) :
    ring.Window (ring.wrap (idx + count)) (messages.drop count) := by
  intro offset sent found
  rw [getElem?_drop] at found
  have less := (List.getElem?_eq_some_iff.mp found).1
  rw [wrap_wrap inside (by omega)]
  exact window _ _ found

def total (messages : List (Nat × Nat)) : Nat := (messages.map Prod.snd).sum

theorem freeLoop_eq {bytes : Nat} (upto : Nat) (window : ring.Window idx messages)
    (inside : idx < ring.size) (fits : messages.length ≤ ring.size)
    (small : bytes + total messages < 2 ^ 64) :
    ∃ freed ≤ messages.length, messages.dropWhile (·.1 ≤ upto) = messages.drop freed ∧
      ring.freeLoop upto messages.length idx bytes =
        some (messages.length - freed, ring.wrap (idx + freed), bytes + total (messages.take freed)) := by
  have here : ring.wrap idx = idx := if_neg (Nat.not_le.mpr inside)
  induction messages generalizing idx bytes with
  | nil => exact ⟨0, Nat.le_refl 0, rfl, by simp [freeLoop, here, total]⟩
  | cons sent rest ih =>
    have read := window 0 sent rfl
    rw [Nat.add_zero, here] at read
    rw [length_cons, freeLoop, read, Option.bind_eq_bind, Option.bind_some]
    by_cases later : upto < sent.1
    · rw [if_pos later]
      exact ⟨0, Nat.zero_le _, by simp [later], by simp [here, total]⟩
    have next : ring.wrap (idx + 1) < ring.size := by
      have := ring.wrap_eq (idx + 1)
      omega
    rw [length_cons] at fits
    have sum : bytes + sent.2 + total rest < 2 ^ 64 := by
      rw [Nat.add_assoc]
      exact small
    have tail := window.drop inside fits 1
    rw [if_neg later, Nat.mod_eq_of_lt (by omega)]
    obtain ⟨freed, part, dropped, done⟩ :=
      ih tail next (Nat.le_of_succ_le fits) sum (if_neg (Nat.not_le.mpr next))
    refine ⟨freed + 1, Nat.succ_le_succ part, by simpa [Nat.not_lt.mp later] using dropped, ?_⟩
    rw [done, wrap_wrap inside (by omega), Nat.add_comm 1, Nat.add_sub_add_right, Nat.add_assoc bytes]
    rfl

theorem Holds.full_eq (holds : ring.Holds queue) : ring.full = queue.full := by
  rw [full, Inflights.full, holds.count, holds.size, holds.maxBytes, holds.bytes]

/-- Only cells behind the end are added. -/
theorem Fits.grow_eq (fits : ring.Fits) : ∃ pad,
    ring.grow = { ring with buffer := ring.buffer ++ pad } ∧ (ring.buffer.length < ring.size →
      0 < pad.length ∧ (ring.buffer ++ pad).length ≤ ring.size) := by
  have := fits.length_le
  unfold grow
  dsimp only
  generalize isSize : (if ring.buffer.length * 2 = 0 then 1 else _) = newSize
  have larger : ring.buffer.length ≤ newSize ∧
      (ring.buffer.length < ring.size → ring.buffer.length < newSize ∧ newSize ≤ ring.size) := by
    split at isSize
    · omega
    · split at isSize <;> omega
  rw [take_of_length_le larger.1]
  refine ⟨_, rfl, fun less => ?_⟩
  rw [length_append, length_replicate]
  omega

theorem Holds.append (holds : ring.Holds queue) (pad : List (Nat × Nat)) :
    Holds { ring with buffer := ring.buffer ++ pad } queue where
  messages offset sent found := by
    have read := holds.messages offset sent found
    exact (getElem?_append_left (List.getElem?_eq_some_iff.mp read).1).trans read
  count := holds.count
  bytes := holds.bytes
  size := holds.size
  maxBytes := holds.maxBytes

theorem Fits.add (fits : ring.Fits) (holds : ring.Holds queue) {index bytes : Nat}
    (room : ring.full = false) (counts : queue.bytes + bytes < 2 ^ 64) : ∃ next,
      ring.add index bytes = some next ∧ next.Fits ∧
        next.Holds { queue with buffer := queue.buffer ++ [(index, bytes)] } := by
  have le := fits.length_le
  have placed := fits.placed
  have empty := fits.empty
  have less : ring.count < ring.size := by
    simp only [full, Bool.or_eq_false_iff, decide_eq_false_iff_not] at room
    omega
  have position := ring.wrap_eq (ring.start + ring.count)
  obtain ⟨next, isNext⟩ : ∃ next, ring.wrap (ring.start + ring.count) = next := ⟨_, rfl⟩
  rw [isNext] at position
  obtain ⟨pad, isGrown, inside, within⟩ : ∃ pad,
      (if next ≥ ring.buffer.length then ring.grow else ring) =
        { ring with buffer := ring.buffer ++ pad } ∧
      next < (ring.buffer ++ pad).length ∧ (ring.buffer ++ pad).length ≤ ring.size := by
    split
    · obtain ⟨pad, grown, bounds⟩ := fits.grow_eq
      simp only [length_append] at bounds ⊢
      exact ⟨pad, grown, by omega, by omega⟩
    · exact ⟨[], by rw [append_nil], by rw [append_nil]; omega, by rwa [append_nil]⟩
  have sum : (ring.bytes + bytes) % 2 ^ 64 = queue.bytes + bytes := by
    rw [holds.bytes]
    exact Nat.mod_eq_of_lt counts
  let written : InflightRing := { ring with
    buffer := (ring.buffer ++ pad).set next (index, bytes)
    count := ring.count + 1
    bytes := (ring.bytes + bytes) % 2 ^ 64 }
  have added : ring.add index bytes = some written := by
    simp only [InflightRing.add, room, isNext, isGrown, inside, Bool.false_eq_true, if_false,
      if_true, written]
  refine ⟨written, added, ⟨?_, ?_, nofun, Nat.mod_lt _ (Nat.two_pow_pos 64)⟩,
    fun offset sent found => ?_, ?_, ?_, holds.size, holds.maxBytes⟩
  · rwa [length_set]
  · simp only [written, length_set, length_append] at inside within ⊢
    omega
  · change ((ring.buffer ++ pad).set next _)[ring.wrap (ring.start + offset)]? = some sent
    rcases getElem?_snoc.mp found with old | ⟨rfl, rfl⟩
    · have earlier := (List.getElem?_eq_some_iff.mp old).1
      have count := holds.count
      have other := ring.wrap_eq (ring.start + offset)
      rw [getElem?_set_ne (by omega)]
      exact (holds.append pad).messages offset sent old
    · rw [← holds.count, isNext, getElem?_set_self inside]
  · simp [written, holds.count]
  · rw [show written.bytes = _ from sum]
    simp [Inflights.bytes]

theorem Fits.freeLE (fits : ring.Fits) (holds : ring.Holds queue) (upto : Nat) : ∃ next,
    ring.freeLE upto = some next ∧ next.Fits ∧ next.Holds (queue.freeLE upto) := by
  have le := fits.length_le
  have placed := fits.placed
  have count := holds.count
  unfold InflightRing.freeLE Inflights.freeLE
  by_cases none : ring.count = 0
  · rw [dropWhile_eq_self_iff.mpr (by omega)]
    exact ⟨ring, if_pos none, fits, holds⟩
  have inside : ring.start < ring.size := by omega
  have read := holds.messages 0 _ (getElem?_eq_getElem (by omega))
  rw [Nat.add_zero, wrap, if_neg (Nat.not_le.mpr inside)] at read
  rw [if_neg none, read, Option.bind_eq_bind, Option.bind_some]
  split
  case isTrue later =>
    rw [dropWhile_eq_self_iff.mpr fun _ => by simpa using later]
    exact ⟨ring, rfl, fits, holds⟩
  have small := fits.small
  rw [holds.bytes] at small
  obtain ⟨freed, part, dropped, done⟩ :=
    freeLoop_eq upto holds.messages inside (by omega) (by rwa [Nat.zero_add])
  rw [count, done, dropped]
  have parts : queue.bytes =
      total (queue.buffer.take freed) + total (queue.buffer.drop freed) := by
    rw [total, total, ← sum_append, ← map_append, take_append_drop]
    rfl
  have moved := ring.wrap_eq (ring.start + freed)
  refine ⟨_, rfl, ⟨le, ?_, fun none => if_pos none, Nat.mod_lt _ (Nat.two_pow_pos 64)⟩,
    ?_, (length_drop).symm, ?_, holds.size, holds.maxBytes⟩
  · dsimp only
    split <;> omega
  · dsimp only
    split
    · rw [drop_eq_nil_of_le (by omega)]
      exact nofun
    · exact holds.messages.drop inside (by omega) freed
  · change _ = total (queue.buffer.drop freed)
    simp only [holds.bytes]
    omega

theorem Fits.step (fits : ring.Fits) (holds : ring.Holds queue) {call : InflightCall}
    {after : Inflights} (counts : queue.counts call) (stepped : queue.step call = some after) :
    ∃ next, ring.step call = some next ∧ next.Fits ∧ next.Holds after := by
  cases call with
  | add index bytes =>
    cases full : queue.full with
    | true => simp [Inflights.step, Inflights.add, full] at stepped
    | false =>
      simp only [Inflights.step, Inflights.add, full, Bool.false_eq_true, if_false] at stepped
      cases stepped
      exact fits.add holds (holds.full_eq.trans full) (of_decide_eq_true counts)
  | freeLE upto =>
    cases stepped
    exact fits.freeLE holds upto
  | reset =>
    cases stepped
    have empty : ring.reset.Fits :=
      ⟨fits.length_le, .inl (Nat.zero_le _), fun _ => rfl, Nat.two_pow_pos 64⟩
    exact ⟨ring.reset, rfl, empty, nofun, rfl, rfl, holds.size, holds.maxBytes⟩

/-- Every run of the queue that counts its bytes in 64 bits is a run of the ring. The ring then
holds the queue, grown or not. -/
theorem refines_queue {size maxBytes : Nat} {calls : List InflightCall} {queue : Inflights}
    (run : Runs Inflights.step (fun queue call => queue.counts call) (.new size maxBytes) calls
      queue) :
    ∃ ring, Runs step anyAction (.new size maxBytes) calls ring ∧ ring.Holds queue ∧
      ring.grow.Holds queue ∧ ring.full = queue.full := by
  have simulated : ∃ ring, Runs step anyAction (.new size maxBytes) calls ring ∧ ring.Fits ∧
      ring.Holds queue := by
    induction run with
    | nil =>
      exact ⟨_, .nil, ⟨Nat.zero_le _, .inl (Nat.le_refl 0), fun _ => rfl, Nat.two_pow_pos 64⟩,
        nofun, rfl, rfl, rfl, rfl⟩
    | snoc _ counts stepped ih =>
      obtain ⟨ring, ran, fits, holds⟩ := ih
      obtain ⟨next, taken, fitsNext, holdsNext⟩ := fits.step holds counts stepped
      exact ⟨next, ran.snoc trivial taken, fitsNext, holdsNext⟩
  obtain ⟨ring, ran, fits, holds⟩ := simulated
  obtain ⟨pad, grown, -⟩ := fits.grow_eq
  exact ⟨ring, ran, holds, grown ▸ holds.append pad, holds.full_eq⟩

/-- The last message is written in front of the others. -/
theorem refines_wrapped_queue :
    let queue : Inflights := ⟨[(5, 20), (6, 5), (7, 30)], 3, 0⟩
    ∃ ring, Runs step anyAction (.new 3 0)
        [.add 3 10, .add 5 20, .add 6 5, .freeLE 4, .add 7 30] ring ∧
      ring.Holds queue ∧ ring.grow.Holds queue ∧ ring.full = queue.full :=
  refines_queue (runs_of_execute (by decide))

/-- Two messages of 2 ^ 64 bytes together: the ring counts none, and takes a third. -/
theorem full_forgets_bytes :
    (execute step anyAction (.new 3 5) [.add 1 1, .add 2 (2 ^ 64 - 1)]).map full = some false ∧
      (execute Inflights.step anyAction (.new 3 5) [.add 1 1, .add 2 (2 ^ 64 - 1)]).map
        Inflights.full = some true := by
  decide

end InflightRing

end RocksGraph.Eraft
