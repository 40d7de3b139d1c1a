import Mathlib.Order.Bounds.Basic
import Peony.Primitives.Script

/-! `CSHA256`: the bytes may come in any number of `Write` calls. -/

namespace Peony

abbrev Words := Vector UInt32 8

open List

structure CSHA256 where
  s : Words
  buf : List UInt8
  bytes : Nat

namespace CSHA256

def Initialize : Words :=
  #v[0x6a09e667, 0xbb67ae85, 0x3c6ef372, 0xa54ff53a, 0x510e527f, 0x9b05688c, 0x1f83d9ab, 0x5be0cd19]

/-- The constructor and `Reset`: neither writes to `buf`. -/
def reset (sha : CSHA256) : CSHA256 := { sha with s := Initialize, bytes := 0 }

def memcpy (dst : List UInt8) (offset : Nat) (src : List UInt8) : List UInt8 :=
  dst.take offset ++ src ++ dst.drop (offset + src.length)

def pad : List UInt8 := 0x80 :: replicate 63 0
def writeBE (size n : Nat) : List UInt8 := (writeLE size n).reverse

variable (Transform : Words → List UInt8 → Words)
def processChunks (sha : CSHA256) (data : List UInt8) : CSHA256 × List UInt8 :=
  if 64 ≤ data.length then
    processChunks { sha with s := Transform sha.s (data.take 64), bytes := (sha.bytes + 64) % 2 ^ 64 } (data.drop 64)
  else (sha, data)
termination_by data.length
decreasing_by rw [length_drop]; omega

def fillBuffer (sha : CSHA256) (bufsize : Nat) (data : List UInt8) : CSHA256 :=
  let buf := memcpy sha.buf bufsize (data.take (64 - bufsize))
  { s := Transform sha.s (buf.take 64), buf, bytes := (sha.bytes + (64 - bufsize)) % 2 ^ 64 }

/-- Process what full chunks there are, and fill the buffer with what remains. -/
def writeRest (sha : CSHA256) (bufsize : Nat) (data : List UInt8) : CSHA256 :=
  let (sha, data) := processChunks Transform sha data
  if data = [] then sha
  else { sha with buf := memcpy sha.buf bufsize data, bytes := (sha.bytes + data.length) % 2 ^ 64 }

def write (sha : CSHA256) (data : List UInt8) : CSHA256 :=
  let bufsize := sha.bytes % 64
  if bufsize ≠ 0 ∧ 64 ≤ bufsize + data.length then
    (sha.fillBuffer Transform bufsize data).writeRest Transform 0 (data.drop (64 - bufsize))
  else sha.writeRest Transform bufsize data

def finalizeNoPadding (sha : CSHA256) : List UInt8 := sha.s.toList.flatMap fun word => writeBE 4 word.toNat

def finalize (sha : CSHA256) : List UInt8 :=
  let sizedesc := writeBE 8 (sha.bytes * 8 % 2 ^ 64)
  let padded := sha.write Transform (pad.take (1 + (119 - sha.bytes % 64) % 64))
  (padded.write Transform sizedesc).finalizeNoPadding

/-- What the object holds of a message: its full blocks in the state, the rest in the buffer. -/
structure Absorbed (sha : CSHA256) (blocks : List (List UInt8)) (rest : List UInt8) : Prop where
  full : ∀ block ∈ blocks, block.length = 64
  short : rest.length < 64
  s : sha.s = blocks.foldl Transform Initialize
  buf : sha.buf.take rest.length = rest
  bytes : sha.bytes = (blocks.flatten ++ rest).length % 2 ^ 64

variable {Transform} {sha : CSHA256} {blocks : List (List UInt8)}
lemma length_flatten_blocks (full : ∀ block ∈ blocks, block.length = 64) : blocks.flatten.length = 64 * blocks.length := by
  simp [length_flatten, map_congr_left full, mul_comm]

lemma Absorbed.bufsize {rest} (absorbed : Absorbed Transform sha blocks rest) : sha.bytes % 64 = rest.length := by
  have blocksLength := length_flatten_blocks absorbed.full
  have short := absorbed.short
  rw [absorbed.bytes, length_append]
  omega

lemma Absorbed.processChunks (absorbed : Absorbed Transform sha blocks []) (data) :
    ∃ more, Absorbed Transform (processChunks Transform sha data).1 (blocks ++ more) [] ∧
      more.flatten ++ (processChunks Transform sha data).2 = data ∧ (processChunks Transform sha data).2.length < 64 := by
  fun_induction CSHA256.processChunks Transform sha data generalizing blocks with
  | case1 sha data long ih =>
    have length : (data.take 64).length = 64 := length_take_of_le long
    have step : Absorbed Transform { sha with s := Transform sha.s (data.take 64), bytes := (sha.bytes + 64) % 2 ^ 64 }
        (blocks ++ [data.take 64]) [] := by
      constructor
      · simpa [or_imp, forall_and, long] using absorbed.full
      · exact absorbed.short
      · simp [absorbed.s]
      · exact absorbed.buf
      · simp [absorbed.bytes, length]
    obtain ⟨more, kept, split, short⟩ := ih step
    refine ⟨data.take 64 :: more, by simpa using kept, ?_, short⟩
    rw [flatten_cons, append_assoc, split, take_append_drop]
  | case2 sha data short => exact ⟨[], by simpa using absorbed, rfl, Nat.lt_of_not_le short⟩

lemma Absorbed.fillBuffer {rest data} (absorbed : Absorbed Transform sha blocks rest) (enough : 64 ≤ rest.length + data.length) :
    Absorbed Transform (sha.fillBuffer Transform rest.length data) (blocks ++ [rest ++ data.take (64 - rest.length)]) [] := by
  have short := absorbed.short
  have length : (rest ++ data.take (64 - rest.length)).length = 64 := by simp; omega
  constructor
  · simpa [or_imp, forall_and, length] using absorbed.full
  · simp
  · rw [CSHA256.fillBuffer, memcpy, absorbed.buf, take_left' length, foldl_append, absorbed.s]
    rfl
  · rfl
  · simp [CSHA256.fillBuffer, absorbed.bytes, length]
    omega

lemma Absorbed.buffer {rest data} (absorbed : Absorbed Transform sha blocks rest) (fits : rest.length + data.length < 64) :
    Absorbed Transform (if data = [] then sha
      else { sha with buf := memcpy sha.buf rest.length data, bytes := (sha.bytes + data.length) % 2 ^ 64 }) blocks (rest ++ data) := by
  split_ifs with empty
  · rwa [empty, append_nil]
  · constructor
    · exact absorbed.full
    · simpa using fits
    · exact absorbed.s
    · rw [memcpy, absorbed.buf]
      exact take_left' rfl
    · simp [absorbed.bytes]
      omega

lemma Absorbed.writeRest (absorbed : Absorbed Transform sha blocks []) (data) : ∃ more rest,
    Absorbed Transform (sha.writeRest Transform 0 data) (blocks ++ more) rest ∧ more.flatten ++ rest = data := by
  obtain ⟨more, kept, split, short⟩ := absorbed.processChunks data
  exact ⟨more, _, kept.buffer (by simpa using short), split⟩

lemma Absorbed.write {rest} (absorbed : Absorbed Transform sha blocks rest) (data) : ∃ blocks' rest',
    Absorbed Transform (sha.write Transform data) blocks' rest' ∧ blocks'.flatten ++ rest' = blocks.flatten ++ rest ++ data := by
  rw [CSHA256.write, absorbed.bufsize]
  split_ifs with fills
  · obtain ⟨more, rest', kept, split⟩ := (absorbed.fillBuffer fills.2).writeRest (data.drop (64 - rest.length))
    refine ⟨_, rest', kept, ?_⟩
    simp [split]
  · by_cases empty : rest = []
    · subst empty
      obtain ⟨more, rest', kept, split⟩ := absorbed.writeRest data
      exact ⟨_, rest', kept, by simp [split]⟩
    · have fits : rest.length + data.length < 64 := by simpa [empty] using fills
      have none : CSHA256.processChunks Transform sha data = (sha, data) := by
        rw [CSHA256.processChunks, if_neg (by omega)]
      refine ⟨blocks, rest ++ data, ?_, by simp⟩
      rw [CSHA256.writeRest, none]
      exact absorbed.buffer fits

lemma Absorbed.writes {rest} (absorbed : Absorbed Transform sha blocks rest) (pieces : List (List UInt8)) : ∃ blocks' rest',
    Absorbed Transform (pieces.foldl (CSHA256.write Transform) sha) blocks' rest' ∧
      blocks'.flatten ++ rest' = blocks.flatten ++ rest ++ pieces.flatten := by
  induction pieces generalizing sha blocks rest with
  | nil => exact ⟨blocks, rest, absorbed, by simp⟩
  | cons data pieces ih =>
    obtain ⟨blocks', rest', kept, split⟩ := absorbed.write data
    obtain ⟨blocks'', rest'', done, whole⟩ := ih kept
    exact ⟨blocks'', rest'', done, by rw [whole, split, flatten_cons, ← append_assoc]⟩

variable (Transform)
/-- `hash` is the compression iterated over the blocks of the message, `0x80`, the fewest zeros and the bit length. -/
def IsSha256 (message hash : List UInt8) : Prop :=
  ∃ (zeros : Nat) (blocks : List (List UInt8)), IsLeast { k | 64 ∣ message.length + 1 + k + 8 } zeros ∧
    (∀ block ∈ blocks, block.length = 64) ∧
    blocks.flatten = message ++ 0x80 :: replicate zeros 0 ++ writeBE 8 (8 * message.length) ∧
    hash = (blocks.foldl Transform Initialize).toList.flatMap fun word => writeBE 4 word.toNat

theorem finalize_writes (sha : CSHA256) (pieces : List (List UInt8)) (short : pieces.flatten.length < 2 ^ 61) :
    IsSha256 Transform pieces.flatten ((pieces.foldl (write Transform) sha.reset).finalize Transform) := by
  have start : Absorbed Transform sha.reset [] [] := ⟨by simp, by simp, rfl, rfl, rfl⟩
  obtain ⟨blocks, rest, absorbed, message⟩ := start.writes pieces
  have bytes : (pieces.foldl (write Transform) sha.reset).bytes = pieces.flatten.length := by
    rw [absorbed.bytes, message]
    apply Nat.mod_eq_of_lt
    exact Nat.lt_trans short (by decide)
  obtain ⟨zeros, count⟩ : ∃ zeros, zeros = (119 - pieces.flatten.length % 64) % 64 := ⟨_, rfl⟩
  have padding : pad.take (1 + zeros) = 0x80 :: replicate zeros 0 := by
    rw [pad, Nat.add_comm, take_succ_cons, take_replicate, min_eq_left (by omega)]
  obtain ⟨blocks', rest', padded, whole⟩ := absorbed.writes [0x80 :: replicate zeros 0, writeBE 8 (8 * pieces.flatten.length)]
  rw [message] at whole
  -- the two last writes bring the message to a multiple of 64 bytes, so nothing stays in the buffer
  have nothing : rest' = [] := by
    have lengths := congrArg length whole
    have blocksLength := length_flatten_blocks padded.full
    have restLength := padded.short
    simp only [length_append, flatten_cons, flatten_nil, length_cons, length_nil, length_replicate, writeBE, length_reverse,
      length_writeLE] at lengths
    exact length_eq_zero_iff.mp (by omega)
  refine ⟨zeros, blocks', ⟨?_, ?_⟩, padded.full, ?_, ?_⟩
  · show 64 ∣ _
    omega
  · intro k divides
    change 64 ∣ _ at divides
    omega
  · simpa [nothing] using whole
  · rw [finalize, bytes, ← count, padding, Nat.mod_eq_of_lt (by omega), Nat.mul_comm, ← padded.s]
    rfl

/-- Adds the bytes of the block to every word. -/
def sumTransform (s : Words) (block : List UInt8) : Words := s.map (· * 3 + UInt32.ofNat (block.map UInt8.toNat).sum)

/-- The second piece fills the buffer, and the third has a whole block. -/
theorem finalize_writes_three : IsSha256 sumTransform (replicate 40 97 ++ (replicate 40 98 ++ replicate 100 99))
    (([replicate 40 97, replicate 40 98, replicate 100 99].foldl (write sumTransform) (reset ⟨Initialize, [], 7⟩)).finalize sumTransform) :=
  finalize_writes _ _ [replicate 40 97, replicate 40 98, replicate 100 99] (by decide +kernel)

end CSHA256
end Peony
