import BitcoinLight.Bytes.Hex
import BitcoinLight.Bytes.Word
import BitcoinLight.Bytes.Reader
import BitcoinLight.Error
import BitcoinLight.Hash.Sha256
import BitcoinLight.Hash.Ripemd160
import BitcoinLight.Hash.Digest
import BitcoinLight.Tx.Basic
import BitcoinLight.Tx.Encode
import BitcoinLight.Tx.Decode
import BitcoinLight.Script.Token
import BitcoinLight.Script.Template
import BitcoinLight.Script.LockTime
import BitcoinLight.Curve.Secp256k1
import BitcoinLight.Taproot.ControlBlock
import BitcoinLight.Taproot.Commitment
import BitcoinLight.Witness.Spend
import BitcoinLight.Sighash.HashType
import BitcoinLight.Sighash.Preimage
import BitcoinLight.Sighash.Message
import BitcoinLight.Work.Target
import BitcoinLight.Work.Header
import BitcoinLight.Network
import BitcoinLight.Work.Retarget
import BitcoinLight.Filter.Header
import BitcoinLight.Chain.Record
import BitcoinLight.Chain.Basic
import BitcoinLight.Chain.Connect
import BitcoinLight.Store.Basic
import BitcoinLight.Settings.Config
import BitcoinLight.Node.State
import BitcoinLight.Node.Query
import BitcoinLight.Node.Headers
import BitcoinLight.Node.Filters
import BitcoinLight.Node.Work
import BitcoinLight.Node.Sync
import BitcoinLight.Number.Binary64
import BitcoinLight.Text.Quoted
import BitcoinLight.Settings.Json
import BitcoinLight.Settings.Read
import BitcoinLight.Settings.Document
import BitcoinLight.Proofs.Requests
import BitcoinLight.Proofs.Chains
import BitcoinLight.Proofs.Connect
import BitcoinLight.Proofs.HeaderBatch
import BitcoinLight.Proofs.HeaderStore
import BitcoinLight.Proofs.FilterBatch
import BitcoinLight.Proofs.FilterStore
import BitcoinLight.Proofs.Handler
import BitcoinLight.Proofs.BestChain
import BitcoinLight.Proofs.FilterChain
import BitcoinLight.Proofs.ByteCodec
import BitcoinLight.Proofs.TxCodec
import BitcoinLight.Proofs.SignatureMessage
import BitcoinLight.Proofs.SignatureHash
import BitcoinLight.Proofs.StoreIndex
import BitcoinLight.Proofs.ChainWork
import BitcoinLight.Proofs.FilterAcceptance
import BitcoinLight.Proofs.CompactTarget
import BitcoinLight.Proofs.TargetWork
import BitcoinLight.Proofs.RetargetBounds
import BitcoinLight.Proofs.CandidateUpdates
import BitcoinLight.Proofs.TipChoice
import BitcoinLight.Proofs.Pruning
import BitcoinLight.Proofs.Ancestry
import BitcoinLight.Proofs.TaprootMessage
import BitcoinLight.Proofs.BatchRanges
import BitcoinLight.Proofs.Resubmission
import BitcoinLight.Proofs.PartialBatch
import BitcoinLight.Proofs.LockTimes
import BitcoinLight.Proofs.WitnessReading
import BitcoinLight.Proofs.ScriptNumbers
import BitcoinLight.Proofs.ScriptTokens
import BitcoinLight.Proofs.CompactSizes
import BitcoinLight.Proofs.TxSizes
import BitcoinLight.Proofs.ControlBlocks
import BitcoinLight.Proofs.WalkBack
import BitcoinLight.Proofs.CommonAncestor
import BitcoinLight.Proofs.MinDifficultyWalk
import BitcoinLight.Proofs.HeaderRuns
import BitcoinLight.Proofs.FilterChainRuns
