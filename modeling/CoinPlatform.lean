import CoinPlatform.ByteOrder
import CoinPlatform.StdVector
import CoinPlatform.Transition
import CoinPlatform.LinkedMap
import CoinPlatform.LatestMap
import CoinPlatform.Reassembly
import CoinPlatform.Cryptography
import CoinPlatform.Transaction
import CoinPlatform.TimeBlock
import CoinPlatform.ValueBlock
import CoinPlatform.Utilities
import CoinPlatform.FileStorage
import CoinPlatform.StorageAnswers
import CoinPlatform.StoreRefinement
import CoinPlatform.GenesisBlocks
import CoinPlatform.TimeChainConsensus
import CoinPlatform.ValueChainConsensus
import CoinPlatform.Recovery
import CoinPlatform.NodeMachine
import CoinPlatform.NodeStep
import CoinPlatform.NodeCalls
import CoinPlatform.StoredBlocks
import CoinPlatform.ContentAddressing
import CoinPlatform.TimeOrder
import CoinPlatform.ValueAgreement
import CoinPlatform.Issuance
import CoinPlatform.Conservation
import CoinPlatform.Inclusion
import CoinPlatform.Ancestry
import CoinPlatform.LostUpdate
import CoinPlatform.TimeReference
import CoinPlatform.Redelivery
import CoinPlatform.TipAgreement
import CoinPlatform.Framing
import CoinPlatform.Messages
import CoinPlatform.Chunking
import CoinPlatform.Connections
import CoinPlatform.SelfDelimiting
import CoinPlatform.SignedBytes
import CoinPlatform.Decoders
import CoinPlatform.FrozenClock
import CoinPlatform.CrossAgreement
import CoinPlatform.ReferentialIntegrity
import CoinPlatform.SignedBlocks
import CoinPlatform.Roles
import CoinPlatform.RoleCalls
import CoinPlatform.FrameBounds
import CoinPlatform.Codecs
import CoinPlatform.DecodingSteps
import CoinPlatform.NumberParsing
import CoinPlatform.HexText
import CoinPlatform.WriteQueue
import CoinPlatform.PeerTable
import CoinPlatform.StartOrder
import CoinPlatform.PurgeQueue
import CoinPlatform.PoolLedger
import CoinPlatform.FailingRuns
import CoinPlatform.Rejections
import CoinPlatform.KeyTransfer
import CoinPlatform.CommandLine
import CoinPlatform.GrowingChain
import CoinPlatform.SoloChains
import CoinPlatform.TimeReadings
import CoinPlatform.Simulation
import CoinPlatform.MessageNetwork
import CoinPlatform.Isolation
import CoinPlatform.PaymentDelivery
import CoinPlatform.AcceptableBlocks
import CoinPlatform.ByteNetwork
import CoinPlatform.Silence
import CoinPlatform.RootedChains
import CoinPlatform.Lives
import CoinPlatform.LifeLedger
import CoinPlatform.LifeReferences
import CoinPlatform.SourceText
import CoinPlatform.GenesisHeader
