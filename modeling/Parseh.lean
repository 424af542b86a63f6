import Parseh.Lib.Keyed
import Parseh.Lib.Run
import Parseh.Lib.Lru
import Parseh.Wire.Basic
import Parseh.Wire.Messages
import Parseh.Verify.Quorum
import Parseh.Verify.QuorumRun
import Parseh.Wire.Table
import Parseh.Verify.QuorumDecision
import Parseh.Core.PeerRegistry
import Parseh.Miner.Election
import Parseh.Miner.Node
import Parseh.Miner.Effect
import Parseh.Miner.Finalise
import Parseh.Miner.Counted
import Parseh.Miner.KeyBinding
import Parseh.Miner.Rewards
import Parseh.Miner.Delivery
import Parseh.Shared.Writers
import Parseh.Shared.Queries
import Parseh.Shared.Stubs
import Parseh.Shared.Replay
import Parseh.Miner.StateSync
import Parseh.Miner.Execution
import Parseh.Miner.InFlight
import Parseh.Shared.DeltaAuth
import Parseh.Core.RegistryOrder
import Parseh.Miner.WireVersion
import Parseh.Miner.SyncQuota
import Parseh.Shared.Tail
import Parseh.Miner.Readiness
import Parseh.Lib.RwLock
import Parseh.Core.RegistryLocks
import Parseh.Agent.Mapping
import Parseh.Agent.Workflow
import Parseh.Lib.Cbor
import Parseh.Lib.Serde
import Parseh.Wire.Cbor
import Parseh.Miner.WireFormat
import Parseh.Core.AdvertisementWire
import Parseh.Agent.WorkflowOrder
import Parseh.Verify.QuorumOutcome
import Parseh.Verify.QuorumStable
import Parseh.Miner.VoteWeight
import Parseh.Verify.RateLimit
import Parseh.Verify.Verifier
import Parseh.Miner.RollingCap
import Parseh.Lib.Socket
import Parseh.Tunnel.IpAddr
import Parseh.Tunnel.Socks5
import Parseh.Agent.Prompt
import Parseh.Agent.Executor
import Parseh.Shared.Timestamps
import Parseh.Agent.StepReference
import Parseh.Agent.TopoSort
import Parseh.Miner.SyncAnswer
import Parseh.Core.Matching
import Parseh.Core.XorDistance
import Parseh.Miner.BufferLedger
import Parseh.Miner.Isolation
import Parseh.Shared.Collusion
import Parseh.Agent.Literals
import Parseh.Lib.Utf8
import Parseh.Agent.Render
import Parseh.Agent.KnowledgeKey
import Parseh.Agent.Definition
import Parseh.Tunnel.Grammar
import Parseh.Tunnel.SigningPayload
import Parseh.Tunnel.Router
import Parseh.Lib.Split
import Parseh.Relay.RealityConfig
import Parseh.Relay.Subprocess
import Parseh.Tunnel.Session
import Parseh.Llm.Downloader
import Parseh.Miner.AntiEntropy
import Parseh.Miner.IdentityStore
import Parseh.Miner.Membership
import Parseh.Chaos.Byzantine
import Parseh.Chaos.Ledger
import Parseh.Chaos.Partition
import Parseh.Chaos.Recovery
import Parseh.Chaos.Corruption
import Parseh.Llm.Detect
