import Peony.Consensus.Params

namespace Peony
open Consensus

def mainUpgrades : UpgradeIndex → Int
  | .baseNetwork => ALWAYS_ACTIVE
  | .testDummy => NO_ACTIVATION_HEIGHT
  | .pos => 1001
  | .posV2 => 1441
  | .bip65 => 1441
  | .stakeModifierV2 => 1541
  | .timeProtocolV2 => 1641
  | .p2pkhBlockSignatures => 1741
  | .stakeMinDepthV2 => 110000
  | .dynamicRewards => 1900001
  | .dynamicCollaterals => NO_ACTIVATION_HEIGHT
  | .posV3 => 1900001

def mainBurnAddress : String := "PXXXXXXXXXXXXXXXXXXXXXXXXXXXVtkn93"

def mainConsensus : Params where
  hashGenesisBlock := 0x000004c7da0d7f51dfedea7925831315afb00a41ac2fd1cba3ea54e034efd369
  nCoinbaseMaturity := 100
  nMaxMoneyOut := 9999999999 * COIN
  nStakeMinAge := 30 * 60
  nStakeMinDepth := 100
  nStakeMinDepthV2 := 600
  nTargetSpacing := 60
  nTimeSlotLength := 15
  nRewardAdjustmentInterval := 7 * 86400 / 60
  mBurnAddresses := (∅ : AssocMap String Int).insert mainBurnAddress 0
  vUpgrades := mainUpgrades
  maxMoney_nonneg := by decide
  maxMoney_lt := by decide
  interval_pos := by decide

def mainCheckpointList : List (Nat × UInt256) :=
  [(0, 0x000004c7da0d7f51dfedea7925831315afb00a41ac2fd1cba3ea54e034efd369),
    (181976, 0x76326af9781fe089b0bf9907b978891d28b5c8273c11afc4a30fa679af225be5),
    (363953, 0x8d40adc7e25699df561fbd4fc0189405bd2525bdb9aa9b987ccfe65378c34e88),
    (545930, 0xcbb3d43a4fe734ac92acb78e9f4445ff4ef18b4e28cac4615e04aba5bb261367),
    (727907, 0x2f7e1b5d781638bde7cf0b59e22fd2c0f1591aed13a88700392cf1bc26731cea),
    (909884, 0x1110724024fd69e180f7184bfd2e525cbca414ab79c26beb7e4b913969b691c9),
    (1091861, 0x72aa171e4f05808f9d4622f17201f590d1c52914da6ff8352a2d14154bb0fab9),
    (1273838, 0x55a3f5c09fff505d99017caa16c580e81c0b5e55fffa3f44ae1657e989fdab0d),
    (1455815, 0x6fb4f6ec9aca2699a70a42837da60d8374a815056478dc2179d0da2a46dd83d1),
    (1637792, 0x3c7261cd4f56613b731f2c1cb855d1e9d2d8bb3d716d89f3353cbde2b47c507f)]

def mainCheckpoints : CCheckpointData where
  mapCheckpoints := mainCheckpointList.foldr (fun checkpoint map => map.insert checkpoint.1 checkpoint.2) ∅
  nTimeLastCheckpoint := 1721466405

def mainParams : CChainParams := ⟨mainConsensus, mainCheckpoints, true⟩

end Peony
