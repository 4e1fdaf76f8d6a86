import RocksGraph.Foundation.Encoding

/-! Messages on the wire (`pack_stream.h`, `connection.cc`).

A message is cut into chunks, each behind two bytes with its length, and an
empty chunk ends it. The `Chunker` writes all messages into one buffer and keeps
the place of the current chunk in an `int`; nothing comes out of what is undefined. -/

set_option autoImplicit false

namespace RocksGraph.Bolt

open Foundation List

structure Chunker where
  buf : Bytes := []
  offset : Int := 0

namespace Chunker

variable (chunker : Chunker)

/-- The size of the buffer is converted to an `int`. -/
def beginMessage : Chunker where
  buf := chunker.buf ++ [0, 0]
  offset := Int.bmod (chunker.buf.length + 2) (2 ^ 32)

/-- Write the length of the chunk in front of it, which has to be in the buffer. -/
def setLength (length : Nat) : Option Chunker :=
  if 2 ≤ chunker.offset ∧ chunker.offset ≤ chunker.buf.length then
    some { chunker with
      buf := chunker.buf.take (chunker.offset.toNat - 2) ++ beBytes 2 length ++ chunker.buf.drop chunker.offset.toNat }
  else none

/-- The loop of `EndMessage` and what follows it. -/
def closeChunks (chunker : Chunker) (size : Nat) : Option Chunker :=
  if 0xffff < size then do
    let full ← chunker.setLength 0xffff
    let place := (chunker.offset + 0xffff).toNat
    let next := chunker.offset + (0xffff + 2)
    -- an `int` that overflows is undefined
    if 2 ^ 31 ≤ next then none
    else closeChunks ⟨full.buf.take place ++ [0, 0] ++ full.buf.drop place, next⟩ (size - 0xffff)
  else do
    let last ← chunker.setLength size
    return { last with buf := last.buf ++ [0, 0] }
termination_by size

def endMessage : Option Chunker :=
  chunker.closeChunks ((chunker.buf.length - chunker.offset) % 2 ^ 64).toNat

def writeMessage (message : Bytes) : Option Chunker :=
  endMessage ⟨chunker.beginMessage.buf ++ message, chunker.beginMessage.offset⟩

end Chunker

def writeMessages (messages : List Bytes) : Option Chunker := messages.foldlM Chunker.writeMessage {}

section

variable (limit : Nat) (handles : Bytes → Bool)

/-- The loop of `ReadChunkSizeDone` and `ReadChunkDone`: the messages that are handed
over, and whether the connection is open and waits for more bytes at the end.
`handles` says that a message is decoded and its handler leaves the connection open. -/
def readChunks (chunk stream : Bytes) : List Bytes × Bool :=
  if stream.length < 2 then ([], true)
  else
    let size := beValue (stream.take 2)
    let rest := stream.drop 2
    if size = 0 ∧ chunk ≠ [] then
      -- nothing is read for an empty chunk
      if handles chunk then (readChunks [] rest).map (chunk :: ·) id else ([chunk], false)
    else if limit < chunk.length + size then ([], false)
    else if rest.length < size then ([], true)
    else readChunks (chunk ++ rest.take size) (rest.drop size)
termination_by stream.length

/-- What a message looks like: full chunks, a last one that is not empty, and the end. -/
def frame (message : Bytes) : Bytes :=
  if 0xffff < message.length then beBytes 2 0xffff ++ message.take 0xffff ++ frame (message.drop 0xffff)
  else beBytes 2 message.length ++ message ++ [0, 0]
termination_by message.length

/-- Where the last chunk of a message begins that is written behind `front` bytes: behind its length, and behind the
full chunks and theirs. -/
def lastPlace (front : Nat) (message : Bytes) : Nat := front + 2 + (message.length - 1) / 0xffff * (0xffff + 2)

/-- The last chunk of every message begins at a place that an `int` can hold. -/
def fits : (front : Nat) → List Bytes → Bool
  | _, [] => true
  | front, message :: rest => lastPlace front message < 2 ^ 31 && fits (front + (frame message).length) rest

variable {limit handles} {front header message chunk rest : Bytes} {chunker : Chunker}

theorem Chunker.setLength_eq (two : header.length = 2) (length : Nat) :
    setLength ⟨front ++ header ++ message, (front.length + 2 : Nat)⟩ length =
      some ⟨front ++ beBytes 2 length ++ message, (front.length + 2 : Nat)⟩ := by
  have size : (front ++ header).length = front.length + 2 := by rw [length_append, two]
  rw [setLength, if_pos (by simp; omega)]
  simp only [Int.toNat_natCast, Nat.add_sub_cancel, drop_left' size]
  rw [append_assoc front header, take_left]

theorem length_frame (message : Bytes) : message.length + 4 ≤ (frame message).length := by
  induction message using frame.induct with
  | case1 message long ih =>
    rw [frame, if_pos long]
    simp at *
    omega
  | case2 message short =>
    rw [frame, if_neg short]
    simp
    omega

theorem Chunker.closeChunks_eq (two : header.length = 2) (inside : front.length + 2 < 2 ^ 31) :
    (closeChunks ⟨front ++ header ++ message, (front.length + 2 : Nat)⟩ message.length).map Chunker.buf =
      if lastPlace front.length message < 2 ^ 31 then some (front ++ frame message) else none := by
  induction message using frame.induct generalizing front header with
  | case1 message long ih =>
    let grown := front ++ beBytes 2 0xffff ++ message.take 0xffff
    have shape : front ++ frame message = grown ++ frame (message.drop 0xffff) := by
      rw [frame, if_pos long, ← append_assoc, ← append_assoc]
    have whole : front ++ beBytes 2 0xffff ++ message = grown ++ message.drop 0xffff := by
      rw [append_assoc _ (take ..), take_append_drop]
    have size : grown.length = front.length + 2 + 0xffff := by
      simp [grown]
      omega
    have left : (message.drop 0xffff).length = message.length - 0xffff := length_drop
    have place : ((front.length + 2 : Nat) + 0xffff : Int).toNat = grown.length := by omega
    have next : (front.length + 2 : Nat) + (0xffff + 2 : Int) = (grown.length + 2 : Nat) := by omega
    have last : lastPlace front.length message = lastPlace grown.length (message.drop 0xffff) := by
      rw [lastPlace, lastPlace, size, left]
      omega
    rw [closeChunks, if_pos long, setLength_eq two, Option.bind_eq_bind, Option.bind_some]
    rw [place, next, whole, shape, last, ← left]
    dsimp only
    rw [take_left, drop_left]
    by_cases below : grown.length + 2 < 2 ^ 31
    · rw [if_neg (by omega)]
      exact ih rfl below
    · rw [if_pos (by omega), if_neg (by rw [lastPlace]; omega)]
      rfl
  | case2 message short =>
    rw [closeChunks, if_neg short, setLength_eq two, frame, if_neg short]
    rw [if_pos (by rw [lastPlace]; omega)]
    simp

/-- A chunk that begins in front of the buffer or behind the `int`s is not closed. -/
theorem Chunker.closeChunks_some {closed : Chunker} {size : Nat} (start : chunker.offset < 2 ^ 31)
    (done : chunker.closeChunks size = some closed) : 2 ≤ chunker.offset ∧ chunker.offset + size < 2 ^ 31 + 0xffff := by
  induction size using Nat.strong_induction_on generalizing chunker with
  | _ size ih =>
  rw [closeChunks] at done
  split at done <;> obtain ⟨full, written, done⟩ := Option.bind_eq_some_iff.mp done <;>
    rw [setLength, Option.ite_none_right_eq_some] at written
  · dsimp only at done
    split at done
    · cases done
    next below =>
      have bound := (ih _ (by omega) (Int.not_le.mp below) done).2
      dsimp only at bound
      omega
  · omega

theorem Chunker.writeMessage_eq (small : chunker.buf.length + message.length < 2 ^ 63) :
    (chunker.writeMessage message).map Chunker.buf =
      if lastPlace chunker.buf.length message < 2 ^ 31 then some (chunker.buf ++ frame message) else none := by
  have length : (chunker.buf ++ [0, 0] ++ message).length = chunker.buf.length + 2 + message.length := by
    simp
    omega
  rw [writeMessage, endMessage, beginMessage]
  by_cases inside : chunker.buf.length + 2 < 2 ^ 31
  · have offset : Int.bmod (chunker.buf.length + 2) (2 ^ 32) = (chunker.buf.length + 2 : Nat) :=
      Int.bmod_eq_of_le (by omega) (by omega)
    have size : (((chunker.buf ++ [0, 0] ++ message).length - (chunker.buf.length + 2 : Nat) : Int) % 2 ^ 64).toNat =
        message.length := by omega
    rw [offset, size]
    exact closeChunks_eq rfl inside
  · rw [if_neg (by rw [lastPlace]; omega), Option.map_eq_none_iff, Option.eq_none_iff_forall_ne_some]
    intro closed done
    have wrapped : Int.bmod (chunker.buf.length + 2) (2 ^ 32) < 2 ^ 31 ∧
        (chunker.buf.length + 2 < 2 ^ 32 → Int.bmod (chunker.buf.length + 2) (2 ^ 32) < 2) := by
      rw [Int.bmod_def]
      split <;> omega
    have bounds := fun start => closeChunks_some start done
    dsimp only at bounds
    omega

theorem readChunks_chunk (filled : chunk ≠ []) (short : chunk.length ≤ 0xffff)
    (within : front.length + chunk.length ≤ limit) :
    readChunks limit handles front (beBytes 2 chunk.length ++ chunk ++ rest) =
      readChunks limit handles (front ++ chunk) rest := by
  have size : beValue (beBytes 2 chunk.length) = chunk.length := by
    rw [beValue, beBytes, reverse_reverse, leValue_leBytes (by omega)]
  have some : chunk.length ≠ 0 := by simpa using filled
  have long : ¬ (beBytes 2 chunk.length ++ chunk ++ rest).length < 2 := by
    rw [length_append, length_append, length_beBytes]
    omega
  rw [readChunks, if_neg long, append_assoc, take_left' (length_beBytes ..), drop_left' (length_beBytes ..), size]
  rw [if_neg (by omega), if_neg (by omega)]
  simp

theorem readChunks_frame (filled : message ≠ []) (within : chunk.length + message.length ≤ limit)
    (handled : handles (chunk ++ message) = true) :
    readChunks limit handles chunk (frame message ++ rest) =
      (readChunks limit handles [] rest).map ((chunk ++ message) :: ·) id := by
  induction message using frame.induct generalizing chunk with
  | case1 message long ih =>
    have size : (message.take 0xffff).length = 0xffff := length_take_of_le (Nat.le_of_lt long)
    have left : (message.drop 0xffff).length = message.length - 0xffff := length_drop
    have shape : frame message =
        beBytes 2 (message.take 0xffff).length ++ message.take 0xffff ++ frame (message.drop 0xffff) := by
      rw [frame, if_pos long, size]
    have whole : chunk ++ message.take 0xffff ++ message.drop 0xffff = chunk ++ message := by
      rw [append_assoc, take_append_drop]
    rw [shape, append_assoc, readChunks_chunk (ne_nil_of_length_pos (by omega)) (by omega) (by omega)]
    rw [ih (ne_nil_of_length_pos (by omega)) (by rw [length_append]; omega) (whole ▸ handled), whole]
  | case2 message short =>
    have full : chunk ++ message ≠ [] := append_ne_nil_of_right_ne_nil _ filled
    have zero : beValue [0, 0] = 0 := rfl
    rw [frame, if_neg short, append_assoc, readChunks_chunk filled (by omega) within, readChunks]
    simp [zero, full, handled]

theorem readChunks_keepAlives (count : Nat) :
    readChunks limit handles [] (replicate (2 * count) 0 ++ rest) = readChunks limit handles [] rest := by
  induction count with
  | zero => rfl
  | succ count ih =>
    have zero : beValue [0, 0] = 0 := rfl
    rw [← ih, Nat.mul_succ, readChunks]
    simp [zero, replicate_succ]

theorem foldlM_writeMessage {messages : List Bytes}
    (small : chunker.buf.length + (messages.flatMap frame).length < 2 ^ 63) :
    (messages.foldlM Chunker.writeMessage chunker).map Chunker.buf =
      if fits chunker.buf.length messages then some (chunker.buf ++ messages.flatMap frame) else none := by
  induction messages generalizing chunker with
  | nil => simp [fits]
  | cons message messages ih =>
    rw [flatMap_cons, length_append, ← Nat.add_assoc] at small
    have least := length_frame message
    have first := @Chunker.writeMessage_eq message chunker (by omega)
    by_cases inside : lastPlace chunker.buf.length message < 2 ^ 31
    · rw [if_pos inside, Option.map_eq_some_iff] at first
      obtain ⟨written, done, same⟩ := first
      rw [← length_append, ← same] at small
      rw [foldlM_cons, done, Option.bind_eq_bind, Option.bind_some, ih small, same, length_append]
      simp only [fits, inside, decide_true, Bool.true_and, flatMap_cons, append_assoc]
    · rw [if_neg inside, Option.map_eq_none_iff] at first
      rw [foldlM_cons, first]
      simp only [fits, inside, decide_false, Bool.false_and]
      rfl

theorem readChunks_frames {sent : List (Nat × Bytes)}
    (allowed : ∀ message ∈ sent.map Prod.snd, message ≠ [] ∧ message.length ≤ limit ∧ handles message = true) :
    readChunks limit handles [] (sent.flatMap fun message => replicate (2 * message.1) 0 ++ frame message.2) =
      (sent.map Prod.snd, true) := by
  induction sent with
  | nil => simp [readChunks]
  | cons message sent ih =>
    obtain ⟨⟨filled, within, handled⟩, others⟩ := forall_mem_cons.mp allowed
    rw [flatMap_cons, append_assoc, readChunks_keepAlives, readChunks_frame filled (by simpa using within) handled,
      ih others]
    rfl

/-- The buffer, which no process can let grow to 2 ^ 63 bytes, holds one frame for each message exactly if they fit.
These frames, with any number of empty chunks in front of each, are read as the messages. -/
theorem readChunks_writeMessages (sent : List (Nat × Bytes))
    (small : ((sent.map Prod.snd).flatMap frame).length < 2 ^ 63)
    (allowed : ∀ message ∈ sent.map Prod.snd, message ≠ [] ∧ message.length ≤ limit ∧ handles message = true) :
    (writeMessages (sent.map Prod.snd)).map Chunker.buf =
      (if fits 0 (sent.map Prod.snd) then some ((sent.map Prod.snd).flatMap frame) else none) ∧
      readChunks limit handles [] (sent.flatMap fun message => replicate (2 * message.1) 0 ++ frame message.2) =
        (sent.map Prod.snd, true) :=
  ⟨@foldlM_writeMessage {} _ (by simpa using small), readChunks_frames allowed⟩

theorem readChunks_writeMessages_two :
    (writeMessages [[7], [8, 9]]).map Chunker.buf = some ([[7], [8, 9]].flatMap frame) ∧
    readChunks 9 (fun _ => true) [] ([(1, [7]), (2, [8, 9])].flatMap fun message =>
      replicate (2 * message.1) 0 ++ frame message.2) = ([[7], [8, 9]], true) := by
  have both := @readChunks_writeMessages 9 (fun _ => true) [(1, [7]), (2, [8, 9])] (by simp [frame]) (by decide)
  have inside : fits 0 ([(1, [7]), (2, [8, 9])].map Prod.snd) = true := by simp [fits, lastPlace, frame]
  rw [inside, if_pos rfl] at both
  exact both

/-- What is written behind too many bytes does not fit. -/
theorem fits_append {front : Nat} {messages : List Bytes} (inside : fits front (messages ++ [message]) = true) :
    front + (messages.flatMap frame).length + 2 < 2 ^ 31 := by
  induction messages generalizing front with
  | nil =>
    have place := of_decide_eq_true (Bool.and_eq_true_iff.mp inside).1
    simp only [lastPlace, flatMap_nil, length_nil] at place ⊢
    omega
  | cons first messages ih =>
    simp only [cons_append, fits, Bool.and_eq_true] at inside
    have later := ih inside.2
    simp only [flatMap_cons, length_append]
    omega

/-- The place of a chunk overflows in one message of 2 GiB, and in many small ones. -/
theorem writeMessages_overflow :
    (∃ message : Bytes, message.length = 2 ^ 31 ∧ writeMessages [message] = none) ∧
    ∃ messages : List Bytes, (∀ message ∈ messages, message.length = 1) ∧ writeMessages messages = none := by
  constructor
  · obtain ⟨message, size⟩ : ∃ message : Bytes, message.length = 2 ^ 31 := ⟨replicate _ 0, length_replicate⟩
    have written := @Chunker.writeMessage_eq message {} (by simp [size])
    rw [if_neg (by rw [lastPlace, size]; simp), Option.map_eq_none_iff] at written
    exact ⟨message, size, by rw [writeMessages, foldlM_cons, written]; rfl⟩
  · obtain ⟨count, many⟩ : ∃ count, count = 2 ^ 29 := ⟨_, rfl⟩
    let messages : List Bytes := replicate count [0] ++ [[0]]
    have five : (frame [0]).length = 5 := by simp [frame]
    have size : ((replicate count [0]).flatMap frame).length = count * 5 := by simp [five]
    have small : (messages.flatMap frame).length < 2 ^ 63 := by
      rw [flatMap_append, length_append, size, flatMap_singleton, five]
      omega
    have late : ¬ fits 0 messages = true := by
      intro inside
      have bound := fits_append inside
      omega
    have written := @foldlM_writeMessage {} messages (by simpa using small)
    have all : ∀ message ∈ messages, message.length = 1 := by
      simp only [messages, mem_append, mem_replicate, mem_singleton]
      rintro message (⟨-, rfl⟩ | rfl) <;> rfl
    exact ⟨messages, all, Option.map_eq_none_iff.mp (written.trans (if_neg late))⟩

end

end RocksGraph.Bolt
