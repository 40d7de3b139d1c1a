import Peony.Coins.Compressor
import Peony.Validation.UpdateCoins

namespace Peony
open Codec CTxOutCompressor List

def TxInUndoSerializer.serialize (keys : PubKeys) (txout : Coin) : List UInt8 :=
  varInt 32 txout.code ++ ((if txout.nHeight > 0 then [0] else []) ++ CTxOutCompressor.serialize keys txout.out)

def TxInUndoDeserializer.unserialize (keys : PubKeys) : Reader Coin := do
  let nCode ← readVarInt 32
  -- the transaction version of older records
  let _nVersionDummy ← readWhen (nCode / 4 > 0) (readVarInt 32) 0
  let out ← CTxOutCompressor.unserialize keys coinEmpty.out
  return ⟨nCode.testBit 1, nCode.testBit 0, out, nCode / 4⟩

def MAX_INPUTS_PER_BLOCK : Nat := MAX_BLOCK_SIZE_CURRENT / 41

namespace CTxUndo
variable (keys : PubKeys)
def serialize (vprevout : CTxUndo) : List UInt8 :=
  compactSize vprevout.length ++ vprevout.flatMap (TxInUndoSerializer.serialize keys)

def unserialize : Reader CTxUndo := do
  let count ← readCompactSize MAX_SIZE
  if count > MAX_INPUTS_PER_BLOCK then failure
  else readMany (TxInUndoDeserializer.unserialize keys) count

end CTxUndo

lemma Storable.reads_undo {coin} (storable : Storable coin) {keys} :
    Reads (TxInUndoDeserializer.unserialize keys) (TxInUndoSerializer.serialize keys coin) coin := by
  have dummy : Reads (readVarInt 32) [0] 0 := reads_varInt (w := 32) (n := 0) (by decide) (by decide)
  unfold TxInUndoSerializer.serialize
  rw [← storable.code_height]
  apply (reads_varInt (by decide) coin.code_lt).bind
  apply (Reads.when fun _ => dummy).bind
  apply (storable.reads_out _ _).bind_nil
  rw [storable.coin_eq]
  exact Reads.pure _

namespace CTxUndo
variable (keys : PubKeys) {vprevout : CTxUndo}
lemma reads_serialize (storable : ∀ coin ∈ vprevout, Storable coin) (few : vprevout.length ≤ MAX_INPUTS_PER_BLOCK) :
    Reads (unserialize keys) (serialize keys vprevout) vprevout := by
  have limit : MAX_INPUTS_PER_BLOCK ≤ MAX_SIZE := by decide
  have size : MAX_SIZE < 2 ^ 64 := by decide
  apply (reads_compactSize (few.trans limit) (by omega)).bind
  rw [if_neg (Nat.not_lt.mpr few)]
  exact reads_many _ fun coin mem => (storable _ mem).reads_undo

lemma refuses_serialize (many : MAX_INPUTS_PER_BLOCK < vprevout.length) : Refuses (unserialize keys) (serialize keys vprevout) := by
  have size : MAX_SIZE < 2 ^ 32 := by decide
  by_cases huge : MAX_SIZE < vprevout.length
  · exact (refuses_compactSize huge size).bind _ _
  · apply (reads_compactSize (Nat.not_lt.mp huge) (by omega)).bind_refuses
    rw [if_pos many]
    exact refuses_failure _

end CTxUndo

/-- Coins and undo records read back to the byte, without a wrap; a record of too many coins is refused. -/
theorem coins_read_back (keys : PubKeys) {coin : Coin} (storable : Storable coin) {vprevout : CTxUndo}
    (all : ∀ coin ∈ vprevout, Storable coin) :
    (∃ bytes, coin.serialize keys = some bytes ∧ Reads (Coin.unserialize keys) bytes coin) ∧
      Reads (TxInUndoDeserializer.unserialize keys) (TxInUndoSerializer.serialize keys coin) coin ∧
      (vprevout.length ≤ MAX_INPUTS_PER_BLOCK → Reads (CTxUndo.unserialize keys) (CTxUndo.serialize keys vprevout) vprevout) ∧
      (MAX_INPUTS_PER_BLOCK < vprevout.length → Refuses (CTxUndo.unserialize keys) (CTxUndo.serialize keys vprevout)) ∧
      (∃ x, 0 ≤ x ∧ x < 2 ^ 64 ∧ compressAmountWith checkUInt64 coin.out.nValue = some x ∧
        compressAmount coin.out.nValue = x ∧ decompressAmountWith checkUInt64 x = some coin.out.nValue ∧
        decompressAmount x = coin.out.nValue) ∧
      ∀ x n, 0 ≤ x → x < 2 ^ 64 → decompressAmountWith checkUInt64 x = some n →
        decompressAmount x = n ∧ compressAmountWith checkUInt64 n = some x ∧
          compressAmount n = x := by
  refine ⟨⟨_, storable.serialize_eq _, storable.reads_coin _⟩, storable.reads_undo, CTxUndo.reads_serialize _ all,
    CTxUndo.refuses_serialize _, ?_, ?_⟩
  · exact compressAmount_decompress storable.nonneg storable.value
  · intro x n nonneg small amount
    exact decompressAmount_compress nonneg small amount

/-- The generator of secp256k1. -/
def generator : List UInt8 :=
  4 :: ((writeLE 32 0x79be667ef9dcbbac55a06295ce870b07029bfcdb2dce28d959f2815b16f81798).reverse ++
    (writeLE 32 0x483ada7726a3c4655da4fbfc0e1108a8fd17b448a68554199c47d08ffb10d4b8).reverse)

def generatorKeys : PubKeys where
  isFullyValid pubkey := pubkey == generator
  decompress pubkey := if pubkey = 2 :: (generator.drop 1).take 32 then some generator else none
  decompress_compressed := by
    intro x y sizeX sizeY valid
    have same := (cons.inj (eq_of_beq valid)).2
    obtain ⟨rfl, rfl⟩ := append_inj same (by rw [sizeX]; decide)
    clear valid same
    decide +kernel +revert

def keyCoin : Coin := ⟨false, true, ⟨250 * COIN, [65] ++ generator ++ [OP_CHECKSIG]⟩, 1441⟩

lemma storable_keyCoin : Storable keyCoin := ⟨by decide, by decide, by decide, by decide⟩

theorem keyCoin_read_back :
    Reads (CTxUndo.unserialize generatorKeys) (CTxUndo.serialize generatorKeys [keyCoin, keyCoin]) [keyCoin, keyCoin] := by
  have all : ∀ coin ∈ [keyCoin, keyCoin], Storable coin := by simp [storable_keyCoin]
  exact (coins_read_back generatorKeys storable_keyCoin all).2.2.1 (by decide)

theorem long_undo_refused : (∀ coin ∈ replicate 48781 keyCoin, Storable coin) ∧
      Refuses (CTxUndo.unserialize generatorKeys) (CTxUndo.serialize generatorKeys (replicate 48781 keyCoin)) := by
  constructor
  · intro coin member
    rw [eq_of_mem_replicate member]
    exact storable_keyCoin
  · apply CTxUndo.refuses_serialize
    rw [length_replicate]
    decide

end Peony
