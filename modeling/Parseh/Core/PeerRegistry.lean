import Parseh.Lib.Keyed
import Parseh.Wire.Messages

/-!
# The peer registry (`parseh-core`, `peer_registry.rs`)

Two tables keyed by `PeerId`: the advertisements, which expire, and the
identities (the peer-key directory), which do not.

* `verifyingKey_recordIdentity`, `verifyingKey_upsert` and
  `verifyingKey_pruneExpired` say how each operation changes the directory;
* `mem_readyPeersForService` says which identities are offered for a service,
  whatever the iteration order of the maps.
-/

namespace Parseh.Core

open Parseh.Lib Parseh.Wire

structure PeerIdentity where
  peerId : PeerId
  verifyingKey : VerifyingKey
  reachableAddrs : List Multiaddr
  firstSeen : UInt64
  lastSeen : UInt64
  readiness : ReadinessState
  deriving DecidableEq

structure PeerRegistry where
  ads : Keyed CapabilityAdvertisement.peerId
  identities : Keyed PeerIdentity.peerId

/-- `u64::saturating_add` of a `u32`. -/
def saturatingAddSecs (a : UInt64) (b : UInt32) : UInt64 :=
  UInt64.ofNat (min (a.toNat + b.toNat) (2 ^ 64 - 1))

/-- `signed_at + ttl_seconds < now`. -/
def isExpired (ad : CapabilityAdvertisement) (now : UInt64) : Bool :=
  saturatingAddSecs ad.signedAt ad.ttlSeconds < now

namespace PeerRegistry

/-- The empty registry. -/
def new : PeerRegistry := ⟨Keyed.empty, Keyed.empty⟩

/-- The key the directory holds for a peer. -/
def verifyingKey (reg : PeerRegistry) (peerId : PeerId) : Option VerifyingKey :=
  (reg.identities.find? peerId).map (·.verifyingKey)

/-- The entry `record_identity` writes: the new one, except that the same key
keeps its `first_seen` and never moves `last_seen` back. -/
def mergedIdentity (reg : PeerRegistry) (identity : PeerIdentity) : PeerIdentity :=
  match reg.identities.find? identity.peerId with
  | some existing =>
    if existing.verifyingKey.asBytes ≠ identity.verifyingKey.asBytes then identity
    else { identity with firstSeen := existing.firstSeen,
                         lastSeen := max identity.lastSeen existing.lastSeen }
  | none => identity

/-- `record_identity`; a changed key is accepted. -/
def recordIdentity (reg : PeerRegistry) (identity : PeerIdentity) : PeerRegistry :=
  { reg with identities := reg.identities.upsert (reg.mergedIdentity identity) }

/-- The identity an advertisement that carries the key `vk` stands for. -/
def identityOf (ad : CapabilityAdvertisement) (vk : VerifyingKey) : PeerIdentity where
  peerId := ad.peerId
  verifyingKey := vk
  reachableAddrs := ad.reachableAddrs
  firstSeen := ad.signedAt
  lastSeen := ad.signedAt
  readiness := ad.readiness

section

variable {W : Type} (x : Externals W)

/-- `upsert`: record the identity first, then the advertisement.  `true` on the
first advertisement of a peer. -/
def upsert (reg : PeerRegistry) (ad : CapabilityAdvertisement) : Bool × PeerRegistry :=
  let reg' :=
    match ad.verifyingKey x with
    | some vk => reg.recordIdentity (identityOf ad vk)
    | none => reg
  (!reg'.ads.contains ad.peerId, { reg' with ads := reg'.ads.upsert ad })

/-- `prune_expired`: drop expired advertisements, keep every identity. -/
def pruneExpired (reg : PeerRegistry) (now : UInt64) : Nat × PeerRegistry :=
  let ads := reg.ads.retain fun ad => !isExpired ad now
  (reg.ads.rows.length - ads.rows.length, { reg with ads })

/-- The capacity a service is ranked by; `Wallet` has none. -/
def capacity (kind : ServiceKind) (ad : CapabilityAdvertisement) : Nat :=
  match kind with
  | .inference => ((ad.inference.map InferenceCapability.estimatedTokensPerSec).getD 0).toNat
  | .relay => ((ad.relay.map RelayCapability.bandwidthMbps).getD 0).toNat
  | .storage => ((ad.storage.map StorageCapability.freeMb).getD 0).toNat
  | .wallet => 0

/-- The eligible advertisements for a service with their identities. -/
def paired (reg : PeerRegistry) (kind : ServiceKind) :
    List (PeerIdentity × CapabilityAdvertisement) :=
  ((reg.ads.rows.filter fun ad => ad.services.contains kind).filter
    fun ad => ad.readiness.isEligible).filterMap
      fun ad => (reg.identities.find? ad.peerId).map fun id => (id, ad)

/-- `ready_peers_for_service`, by descending capacity. -/
def readyPeersForService (reg : PeerRegistry) (kind : ServiceKind) : List PeerIdentity :=
  (sortByKey (fun p => OrderDual.toDual (capacity kind p.2)) (reg.paired kind)).map Prod.fst

/-! ## What each operation does to the directory -/

variable {x} {reg : PeerRegistry} {ad : CapabilityAdvertisement}

theorem mergedIdentity_peerId (reg : PeerRegistry) (identity : PeerIdentity) :
    (reg.mergedIdentity identity).peerId = identity.peerId := by
  unfold mergedIdentity
  split
  · split <;> rfl
  · rfl

theorem mergedIdentity_verifyingKey (reg : PeerRegistry) (identity : PeerIdentity) :
    (reg.mergedIdentity identity).verifyingKey = identity.verifyingKey := by
  unfold mergedIdentity
  split
  · split <;> rfl
  · rfl

/-- Recording an identity sets the key of that peer and of no other. -/
theorem verifyingKey_recordIdentity (reg : PeerRegistry) (identity : PeerIdentity) (p : PeerId) :
    (reg.recordIdentity identity).verifyingKey p =
      if identity.peerId = p then some identity.verifyingKey else reg.verifyingKey p := by
  unfold verifyingKey recordIdentity
  rw [Keyed.find?_upsert, mergedIdentity_peerId]
  split
  · rw [Option.map_some, mergedIdentity_verifyingKey]
  · rfl

/-- An advertisement sets the key of the peer it names, if it carries one. -/
theorem verifyingKey_upsert (reg : PeerRegistry) (ad : CapabilityAdvertisement) (p : PeerId) :
    (reg.upsert x ad).2.verifyingKey p =
      if ad.peerId = p then (ad.verifyingKey x).or (reg.verifyingKey p)
      else reg.verifyingKey p := by
  unfold upsert
  cases hk : ad.verifyingKey x with
  | none =>
    rw [Option.none_or, ite_self]
    rfl
  | some vk =>
    rw [Option.some_or]
    exact verifyingKey_recordIdentity reg (identityOf ad vk) p

@[simp] theorem verifyingKey_pruneExpired (reg : PeerRegistry) (now : UInt64) (p : PeerId) :
    (reg.pruneExpired now).2.verifyingKey p = reg.verifyingKey p := rfl

theorem mem_paired {kind : ServiceKind} {id : PeerIdentity} :
    (id, ad) ∈ reg.paired kind ↔
      ad ∈ reg.ads.rows ∧ kind ∈ ad.services ∧ ad.readiness.isEligible = true ∧
        reg.identities.find? ad.peerId = some id := by
  simp only [paired, List.mem_filterMap, List.mem_filter, Option.map_eq_some_iff, Prod.mk.injEq,
    List.contains_iff_mem]
  constructor
  · rintro ⟨ad', ⟨⟨h1, h2⟩, h3⟩, id', h4, rfl, rfl⟩
    exact ⟨h1, h2, h3, h4⟩
  · rintro ⟨h1, h2, h3, h4⟩
    exact ⟨ad, ⟨⟨h1, h2⟩, h3⟩, id, h4, rfl, rfl⟩

/-- The identities offered for a service: the peer has an advertisement that
offers it in an eligible state, and its key is known. -/
theorem mem_readyPeersForService {kind : ServiceKind} {id : PeerIdentity} :
    id ∈ reg.readyPeersForService kind ↔
      ∃ ad ∈ reg.ads.rows, kind ∈ ad.services ∧ ad.readiness.isEligible = true ∧
        reg.identities.find? ad.peerId = some id := by
  simp only [readyPeersForService, List.mem_map, mem_sortByKey, Prod.exists, exists_and_right,
    exists_eq_right]
  constructor
  · rintro ⟨ad, h⟩
    exact ⟨ad, mem_paired.mp h⟩
  · rintro ⟨ad, h⟩
    exact ⟨ad, mem_paired.mpr h⟩

end

end PeerRegistry

end Parseh.Core
