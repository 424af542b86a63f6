import Parseh.Wire.Cbor
import Parseh.Wire.Table

/-!
# The wire format of advertisements (`parseh-core`, `peer_registry.rs`)

V0.2.1 advertisements have nine fields, current ones have fourteen.  One decoder
reads both: each of the five new fields has a default.

* `de_advertisement`: what the decoder reads, field by field;
* `decodeAdvertisement_encodeV021`: an old advertisement gets the defaults;
* `decodeAdvertisement_encode`: a current one is read back;
* `decodeAdvertisement_of_bad_key`: a key of a wrong length is an error, whatever
  else the advertisement holds;
* `advertisement_compatible`: the three together.
-/

namespace Parseh.Core

open Parseh.Lib.Cbor Parseh.Wire

variable {W : Type}

/-- ciborium with the byte form of a `Multiaddr`. -/
structure AdCbor (W : Type) extends Wire.Cbor W where
  addrToBytes : Multiaddr → Bytes
  addrOfBytes : Bytes → Option Multiaddr

structure AdCbor.Lawful (c : AdCbor W) (isNan : W → Bool) : Prop where
  cbor : c.toCbor.Lawful isNan
  addr : ∀ a, c.addrOfBytes (c.addrToBytes a) = some a

/-- The nine fields of V0.2.1. -/
structure AdvertisementV021 where
  peerId : PeerId
  version : UInt32
  services : List ServiceKind
  inference : Option InferenceCapability
  relay : Option RelayCapability
  storage : Option StorageCapability
  networkAddress : Multiaddr
  signedAt : UInt64
  ttlSeconds : UInt32

/-- The advertisement with the defaults of the fields that came later. -/
def AdvertisementV021.withDefaults (old : AdvertisementV021) : CapabilityAdvertisement where
  peerId := old.peerId
  version := old.version
  services := old.services
  inference := old.inference
  relay := old.relay
  storage := old.storage
  networkAddress := old.networkAddress
  signedAt := old.signedAt
  ttlSeconds := old.ttlSeconds
  verifyingKeyBytes := Array32.replicate 0
  reachableAddrs := []
  readiness := .ready
  hasExternalInternet := false
  bandwidthMbpsExternal := none

/-! ## serde -/

def InferenceCapability.serde : Serde W InferenceCapability where
  ser v := record
    [("models", (Serde.vec .string).ser v.models),
     ("context_size", Serde.u32.ser v.contextSize),
     ("estimated_tokens_per_sec", Serde.u32.ser v.estimatedTokensPerSec)]
  de i := do
    let m ← i.fields?
    let models ← field m "models" (.vec .string) none
    let contextSize ← field m "context_size" .u32 none
    let estimatedTokensPerSec ← field m "estimated_tokens_per_sec" .u32 none
    some { models, contextSize, estimatedTokensPerSec }

def RelayCapability.serde : Serde W RelayCapability where
  ser v := record
    [("bandwidth_mbps", Serde.u32.ser v.bandwidthMbps),
     ("transport_kinds", (Serde.vec .string).ser v.transportKinds)]
  de i := do
    let m ← i.fields?
    let bandwidthMbps ← field m "bandwidth_mbps" .u32 none
    let transportKinds ← field m "transport_kinds" (.vec .string) none
    some { bandwidthMbps, transportKinds }

def StorageCapability.serde : Serde W StorageCapability where
  ser v := record
    [("free_mb", Serde.u64.ser v.freeMb),
     ("persistence_guarantee", Serde.string.ser v.persistenceGuarantee)]
  de i := do
    let m ← i.fields?
    let freeMb ← field m "free_mb" .u64 none
    let persistenceGuarantee ← field m "persistence_guarantee" .string none
    some { freeMb, persistenceGuarantee }

def ReadinessState.name : ReadinessState → String
  | .initialised => "Initialised"
  | .connected => "Connected"
  | .listening => "Listening"
  | .ready => "Ready"
  | .active => "Active"
  | .degraded => "Degraded"
  | .stopped => "Stopped"

def ReadinessState.serde : Serde W ReadinessState :=
  .unitEnum ReadinessState.name
    [.initialised, .connected, .listening, .ready, .active, .degraded, .stopped]

/-- `default_readiness_state`. -/
def defaultReadinessState : ReadinessState := .ready

/-- `serde_bytes_32::deserialize`: no bytes at all stand for the all-zero key. -/
def deserializeBytes32 (v : Bytes) : Except String Array32 :=
  if h : v.length = 32 then .ok ⟨v, h⟩
  else if v.isEmpty then .ok (Array32.replicate 0)
  else .error ("verifying_key_bytes: expected 32 bytes, got " ++ toString v.length)

def Array32.serde : Serde W Array32 :=
  .viaByteBuf Array32.bytes fun v => (deserializeBytes32 v).toOption

section

variable (c : AdCbor W)

def Multiaddr.serde : Serde W Multiaddr := .viaByteBuf c.addrToBytes c.addrOfBytes

/-- The fields that all advertisements have, as they are written. -/
def AdvertisementV021.fields (v : AdvertisementV021) : List (String × Item W) :=
  [("peer_id", (PeerId.serde c.toCbor).ser v.peerId),
   ("version", Serde.u32.ser v.version),
   ("services", (Serde.vec ServiceKind.serde).ser v.services),
   ("inference", (Serde.option InferenceCapability.serde).ser v.inference),
   ("relay", (Serde.option RelayCapability.serde).ser v.relay),
   ("storage", (Serde.option StorageCapability.serde).ser v.storage),
   ("network_address", (Multiaddr.serde c).ser v.networkAddress),
   ("signed_at", Serde.u64.ser v.signedAt),
   ("ttl_seconds", Serde.u32.ser v.ttlSeconds)]

def CapabilityAdvertisement.serde : Serde W CapabilityAdvertisement where
  ser v := record
    [("peer_id", (PeerId.serde c.toCbor).ser v.peerId),
     ("version", Serde.u32.ser v.version),
     ("services", (Serde.vec ServiceKind.serde).ser v.services),
     ("inference", (Serde.option InferenceCapability.serde).ser v.inference),
     ("relay", (Serde.option RelayCapability.serde).ser v.relay),
     ("storage", (Serde.option StorageCapability.serde).ser v.storage),
     ("network_address", (Multiaddr.serde c).ser v.networkAddress),
     ("signed_at", Serde.u64.ser v.signedAt),
     ("ttl_seconds", Serde.u32.ser v.ttlSeconds),
     ("verifying_key_bytes", Array32.serde.ser v.verifyingKeyBytes),
     ("reachable_addrs", (Serde.vec (Multiaddr.serde c)).ser v.reachableAddrs),
     ("readiness", ReadinessState.serde.ser v.readiness),
     ("has_external_internet", Serde.bool.ser v.hasExternalInternet),
     ("bandwidth_mbps_external", (Serde.option .u32).ser v.bandwidthMbpsExternal)]
  de i := do
    let m ← i.fields?
    let peerId ← field m "peer_id" (PeerId.serde c.toCbor) none
    let version ← field m "version" .u32 none
    let services ← field m "services" (.vec ServiceKind.serde) none
    let inference ← field m "inference" (.option InferenceCapability.serde) (some none)
    let relay ← field m "relay" (.option RelayCapability.serde) (some none)
    let storage ← field m "storage" (.option StorageCapability.serde) (some none)
    let networkAddress ← field m "network_address" (Multiaddr.serde c) none
    let signedAt ← field m "signed_at" .u64 none
    let ttlSeconds ← field m "ttl_seconds" .u32 none
    let verifyingKeyBytes ←
      field m "verifying_key_bytes" Array32.serde (some (Array32.replicate 0))
    let reachableAddrs ← field m "reachable_addrs" (.vec (Multiaddr.serde c)) (some [])
    let readiness ← field m "readiness" ReadinessState.serde (some defaultReadinessState)
    let hasExternalInternet ← field m "has_external_internet" .bool (some false)
    let bandwidthMbpsExternal ← field m "bandwidth_mbps_external" (.option .u32) (some none)
    some { peerId, version, services, inference, relay, storage, networkAddress, signedAt,
           ttlSeconds, verifyingKeyBytes, reachableAddrs, readiness, hasExternalInternet,
           bandwidthMbpsExternal }

def encodeAdvertisement (ad : CapabilityAdvertisement) : Bytes :=
  (c.toCbor.codec (CapabilityAdvertisement.serde c)).encode ad

def decodeAdvertisement (bytes : Bytes) : Option CapabilityAdvertisement :=
  (c.toCbor.codec (CapabilityAdvertisement.serde c)).decode bytes

/-- What a V0.2.1 node sends. -/
def encodeV021 (old : AdvertisementV021) : Bytes :=
  encode c.tokens (record (old.fields c))

/-- The fields hold the advertisement: each one is there, or has its default. -/
structure Holds (m : List (String × Item W)) (ad : CapabilityAdvertisement) : Prop where
  peerId : field m "peer_id" (PeerId.serde c.toCbor) none = some ad.peerId
  version : field m "version" .u32 none = some ad.version
  services : field m "services" (.vec ServiceKind.serde) none = some ad.services
  inference :
    field m "inference" (.option InferenceCapability.serde) (some none) = some ad.inference
  relay : field m "relay" (.option RelayCapability.serde) (some none) = some ad.relay
  storage : field m "storage" (.option StorageCapability.serde) (some none) = some ad.storage
  networkAddress : field m "network_address" (Multiaddr.serde c) none = some ad.networkAddress
  signedAt : field m "signed_at" .u64 none = some ad.signedAt
  ttlSeconds : field m "ttl_seconds" .u32 none = some ad.ttlSeconds
  verifyingKeyBytes :
    field m "verifying_key_bytes" Array32.serde (some (Array32.replicate 0)) =
      some ad.verifyingKeyBytes
  reachableAddrs :
    field m "reachable_addrs" (.vec (Multiaddr.serde c)) (some []) = some ad.reachableAddrs
  readiness :
    field m "readiness" ReadinessState.serde (some defaultReadinessState) = some ad.readiness
  hasExternalInternet :
    field m "has_external_internet" .bool (some false) = some ad.hasExternalInternet
  bandwidthMbpsExternal :
    field m "bandwidth_mbps_external" (.option .u32) (some none) = some ad.bandwidthMbpsExternal

end

/-- What the decoder reads: the fields of the item hold it. -/
theorem de_advertisement {c : AdCbor W} {i : Item W} {ad : CapabilityAdvertisement} :
    (CapabilityAdvertisement.serde c).de i = some ad ↔
      ∃ m, i.fields? = some m ∧ Holds c m ad := by
  constructor
  · intro h
    obtain ⟨m, hm, h⟩ := Option.bind_eq_some_iff.mp h
    obtain ⟨_, h1, h⟩ := Option.bind_eq_some_iff.mp h
    obtain ⟨_, h2, h⟩ := Option.bind_eq_some_iff.mp h
    obtain ⟨_, h3, h⟩ := Option.bind_eq_some_iff.mp h
    obtain ⟨_, h4, h⟩ := Option.bind_eq_some_iff.mp h
    obtain ⟨_, h5, h⟩ := Option.bind_eq_some_iff.mp h
    obtain ⟨_, h6, h⟩ := Option.bind_eq_some_iff.mp h
    obtain ⟨_, h7, h⟩ := Option.bind_eq_some_iff.mp h
    obtain ⟨_, h8, h⟩ := Option.bind_eq_some_iff.mp h
    obtain ⟨_, h9, h⟩ := Option.bind_eq_some_iff.mp h
    obtain ⟨_, h10, h⟩ := Option.bind_eq_some_iff.mp h
    obtain ⟨_, h11, h⟩ := Option.bind_eq_some_iff.mp h
    obtain ⟨_, h12, h⟩ := Option.bind_eq_some_iff.mp h
    obtain ⟨_, h13, h⟩ := Option.bind_eq_some_iff.mp h
    obtain ⟨_, h14, h⟩ := Option.bind_eq_some_iff.mp h
    cases h
    exact ⟨m, hm, h1, h2, h3, h4, h5, h6, h7, h8, h9, h10, h11, h12, h13, h14⟩
  · rintro ⟨m, hm, h⟩
    refine Option.bind_eq_some_iff.mpr ⟨_, hm, ?_⟩
    refine Option.bind_eq_some_iff.mpr ⟨_, h.peerId, ?_⟩
    refine Option.bind_eq_some_iff.mpr ⟨_, h.version, ?_⟩
    refine Option.bind_eq_some_iff.mpr ⟨_, h.services, ?_⟩
    refine Option.bind_eq_some_iff.mpr ⟨_, h.inference, ?_⟩
    refine Option.bind_eq_some_iff.mpr ⟨_, h.relay, ?_⟩
    refine Option.bind_eq_some_iff.mpr ⟨_, h.storage, ?_⟩
    refine Option.bind_eq_some_iff.mpr ⟨_, h.networkAddress, ?_⟩
    refine Option.bind_eq_some_iff.mpr ⟨_, h.signedAt, ?_⟩
    refine Option.bind_eq_some_iff.mpr ⟨_, h.ttlSeconds, ?_⟩
    refine Option.bind_eq_some_iff.mpr ⟨_, h.verifyingKeyBytes, ?_⟩
    refine Option.bind_eq_some_iff.mpr ⟨_, h.reachableAddrs, ?_⟩
    refine Option.bind_eq_some_iff.mpr ⟨_, h.readiness, ?_⟩
    refine Option.bind_eq_some_iff.mpr ⟨_, h.hasExternalInternet, ?_⟩
    refine Option.bind_eq_some_iff.mpr ⟨_, h.bandwidthMbpsExternal, ?_⟩
    rfl

/-! ## What is written is read back -/

@[simp] theorem de_ser_services (ks : List ServiceKind) :
    (Serde.vec ServiceKind.serde : Serde W _).de ((Serde.vec ServiceKind.serde).ser ks) = some ks :=
  Serde.de_ser_vec fun k _ => de_ser_serviceKind k

@[simp] theorem de_ser_readinessState (r : ReadinessState) :
    (ReadinessState.serde : Serde W _).de (ReadinessState.serde.ser r) = some r :=
  Serde.de_ser_unitEnum (by cases r <;> decide) (by cases r <;> decide)

@[simp] theorem de_ser_inference (o : Option InferenceCapability) :
    (Serde.option InferenceCapability.serde : Serde W _).de
      ((Serde.option InferenceCapability.serde).ser o) = some o :=
  Serde.de_ser_option (fun v _ => by simp [InferenceCapability.serde])
    fun v => by simp [InferenceCapability.serde, record]

@[simp] theorem de_ser_relay (o : Option RelayCapability) :
    (Serde.option RelayCapability.serde : Serde W _).de
      ((Serde.option RelayCapability.serde).ser o) = some o :=
  Serde.de_ser_option (fun v _ => by simp [RelayCapability.serde])
    fun v => by simp [RelayCapability.serde, record]

@[simp] theorem de_ser_storage (o : Option StorageCapability) :
    (Serde.option StorageCapability.serde : Serde W _).de
      ((Serde.option StorageCapability.serde).ser o) = some o :=
  Serde.de_ser_option (fun v _ => by simp [StorageCapability.serde])
    fun v => by simp [StorageCapability.serde, record]

theorem deserializeBytes32_bytes (key : Array32) : deserializeBytes32 key.bytes = .ok key := by
  simp [deserializeBytes32, key.size]

/-- Only 32 bytes or none are a key. -/
theorem deserializeBytes32_error {v : Bytes} (h32 : v.length ≠ 32) (h0 : v.length ≠ 0) :
    deserializeBytes32 v =
      .error ("verifying_key_bytes: expected 32 bytes, got " ++ toString v.length) := by
  have hne : v.isEmpty = false := by
    cases v with
    | nil => exact absurd rfl h0
    | cons b v => rfl
  simp [deserializeBytes32, h32, hne]

@[simp] theorem de_ser_array32 (key : Array32) :
    (Array32.serde : Serde W _).de (Array32.serde.ser key) = some key := by
  refine Serde.de_ser_viaByteBuf ?_
  rw [deserializeBytes32_bytes]
  rfl

section

variable {c : AdCbor W} {isNan : W → Bool} (hc : c.Lawful isNan)
include hc

theorem de_ser_multiaddr (a : Multiaddr) :
    (Multiaddr.serde c).de ((Multiaddr.serde c).ser a) = some a :=
  Serde.de_ser_viaByteBuf (hc.addr a)

theorem de_ser_multiaddrs (as : List Multiaddr) :
    (Serde.vec (Multiaddr.serde c)).de ((Serde.vec (Multiaddr.serde c)).ser as) = some as :=
  Serde.de_ser_vec fun a _ => de_ser_multiaddr hc a

/-- What is written holds the advertisement. -/
theorem holds_written (ad : CapabilityAdvertisement) :
    ∃ m, ((CapabilityAdvertisement.serde c).ser ad).fields? = some m ∧ Holds c m ad := by
  refine ⟨_, fields?_record _, ?_⟩
  constructor <;>
    simp [de_ser_peerId hc.cbor, de_ser_multiaddr hc, de_ser_multiaddrs hc]

/-- The five fields that are not there get their defaults. -/
theorem holds_v021 (old : AdvertisementV021) : Holds c (old.fields c) old.withDefaults := by
  constructor <;>
    simp [AdvertisementV021.fields, de_ser_peerId hc.cbor, de_ser_multiaddr hc,
      AdvertisementV021.withDefaults, defaultReadinessState]

end

/-! ## What is written fits -/

section

variable {ok : W → Prop} {depth : Nat}

@[simp] theorem fits_ser_inference (v : InferenceCapability) :
    ((InferenceCapability.serde : Serde W _).ser v).Fits ok (depth + 2) := by
  simp [InferenceCapability.serde]

@[simp] theorem fits_ser_relay (v : RelayCapability) :
    ((RelayCapability.serde : Serde W _).ser v).Fits ok (depth + 2) := by
  simp [RelayCapability.serde]

@[simp] theorem fits_ser_storage (v : StorageCapability) :
    ((StorageCapability.serde : Serde W _).ser v).Fits ok (depth + 1) := by
  simp [StorageCapability.serde]

variable {c : AdCbor W}

@[simp] theorem fits_ser_multiaddr (a : Multiaddr) :
    ((Multiaddr.serde c).ser a).Fits ok depth := by
  simp [Multiaddr.serde]

theorem fits_ser_advertisement (ad : CapabilityAdvertisement) :
    ((CapabilityAdvertisement.serde c).ser ad).Fits ok (depth + 3) := by
  refine fits_record.mpr ?_
  simp only [List.forall_mem_cons]
  simp [ServiceKind.serde, ReadinessState.serde, Array32.serde]

theorem fits_fields_v021 (old : AdvertisementV021) :
    (record (old.fields c)).Fits ok (depth + 3) := by
  simp [AdvertisementV021.fields, ServiceKind.serde]

end
/-! ## The decoder -/

section

variable {c : AdCbor W} {isNan : W → Bool}

theorem decodeAdvertisement_encode (hc : c.Lawful isNan) (ad : CapabilityAdvertisement) :
    decodeAdvertisement c (encodeAdvertisement c ad) = some ad :=
  decode_codec hc.cbor (de_advertisement.mpr (holds_written hc ad)) (fits_ser_advertisement ad)

theorem decodeAdvertisement_encodeV021 (hc : c.Lawful isNan) (old : AdvertisementV021) :
    decodeAdvertisement c (encodeV021 c old) = some old.withDefaults := by
  have hfits : (record (old.fields c)).Fits (fun w => isNan w = false) recursionLimit :=
    fits_fields_v021 old
  have hitem := decode_encode hc.cbor.tokens hfits []
  rw [List.append_nil] at hitem
  simp only [decodeAdvertisement, encodeV021, Cbor.codec, hitem, Option.bind_some]
  exact de_advertisement.mpr ⟨_, fields?_record _, holds_v021 hc old⟩

/-- The all-zero key stands for none. -/
theorem verifyingKey_withDefaults (x : Externals W) (old : AdvertisementV021) :
    old.withDefaults.verifyingKey x = none :=
  if_pos rfl

/-- Among the fields of the item there is a key of these bytes. -/
def HasVerifyingKeyBytes (i : Item W) (v : Bytes) : Prop :=
  ∃ entries key value, i = .map entries ∧ (key, value) ∈ entries ∧
    key.name? = some "verifying_key_bytes" ∧ Serde.byteBuf.de value = some v

/-- A key of a wrong length is an error, whatever else is there. -/
theorem decodeAdvertisement_of_bad_key {bytes rest v : Bytes} {i : Item W}
    (hitem : decode c.tokens recursionLimit bytes = some (i, rest))
    (hkey : HasVerifyingKeyBytes i v) (h0 : v.length ≠ 0) (h32 : v.length ≠ 32) :
    decodeAdvertisement c bytes = none := by
  obtain ⟨entries, key, value, rfl, hmem, hname, hvalue⟩ := hkey
  have hde : (Array32.serde : Serde W _).de value = none := by
    simp [Array32.serde, Serde.viaByteBuf, hvalue, deserializeBytes32_error h32 h0, Except.toOption]
  simp only [decodeAdvertisement, Cbor.codec, hitem, Option.bind_some]
  refine Option.eq_none_iff_forall_ne_some.mpr fun ad had => ?_
  obtain ⟨m, hm, hholds⟩ := de_advertisement.mp had
  have hfield := hholds.verifyingKeyBytes
  have hin := mem_of_fields? hm hmem hname
  rw [field_of_unreadable hin hde] at hfield
  cases hfield

end

/-- One decoder reads both generations: an old advertisement with the defaults of the
later fields and so without a key, a current one as it was written, and none whose key
has a wrong length. -/
theorem advertisement_compatible {c : AdCbor W} {isNan : W → Bool} (hc : c.Lawful isNan)
    (x : Externals W) :
    (∀ old : AdvertisementV021,
      decodeAdvertisement c (encodeV021 c old) = some old.withDefaults ∧
        old.withDefaults.verifyingKey x = none) ∧
    (∀ ad : CapabilityAdvertisement,
      decodeAdvertisement c (encodeAdvertisement c ad) = some ad) ∧
    ∀ (bytes rest v : Bytes) (i : Item W),
      decode c.tokens recursionLimit bytes = some (i, rest) → HasVerifyingKeyBytes i v →
      v.length ≠ 0 → v.length ≠ 32 → decodeAdvertisement c bytes = none := by
  refine ⟨fun old => ⟨decodeAdvertisement_encodeV021 hc old, verifyingKey_withDefaults x old⟩,
    fun ad => decodeAdvertisement_encode hc ad, fun bytes rest v i hitem hkey h0 h32 => ?_⟩
  exact decodeAdvertisement_of_bad_key hitem hkey h0 h32

def loopbackAddr : Multiaddr := "/ip4/127.0.0.1/tcp/8421"

/-- The standard tokens, and the binary form of the loopback address. -/
def loopbackCbor : AdCbor UInt64 where
  toCbor := standardCbor
  addrToBytes a :=
    if a = loopbackAddr then [0x04, 0x7F, 0x00, 0x00, 0x01, 0x06, 0x20, 0xE5]
    else 0xFF :: utf8 a
  addrOfBytes
    | 0xFF :: b => ofUtf8? b
    | b => if b = [0x04, 0x7F, 0x00, 0x00, 0x01, 0x06, 0x20, 0xE5] then some loopbackAddr else none

theorem lawful_loopbackCbor : loopbackCbor.Lawful isNanBits where
  cbor := lawful_standardCbor
  addr a := by
    by_cases h : a = loopbackAddr
    · simp [loopbackCbor, h]
    · simp [loopbackCbor, h, ofUtf8?_utf8]

/-- The advertisement of a V0.2.1 node that serves one model. -/
def tinyllamaV021 : AdvertisementV021 where
  peerId := ed25519Peer 9
  version := 1
  services := [.inference]
  inference := some { models := ["tinyllama:1.1b"], contextSize := 2048,
                      estimatedTokensPerSec := 30 }
  relay := none
  storage := none
  networkAddress := loopbackAddr
  signedAt := 1000
  ttlSeconds := 300

/-- It is read without a key, and a key of one byte is refused. -/
theorem tinyllama_compatible :
    decodeAdvertisement loopbackCbor (encodeV021 loopbackCbor tinyllamaV021) =
        some tinyllamaV021.withDefaults ∧
      tinyllamaV021.withDefaults.verifyingKey (Externals.ofTables [] [] [] [] : Externals UInt64) =
        none ∧
      decodeAdvertisement loopbackCbor
        (encode standard (record [("verifying_key_bytes", .bytes [9])])) = none := by
  obtain ⟨hold, -, hbad⟩ :=
    advertisement_compatible lawful_loopbackCbor (Externals.ofTables [] [] [] [])
  have hitem := decode_encode lawful_standardCbor.tokens
    (show (record [("verifying_key_bytes", (.bytes [9] : Item UInt64))]).Fits _ recursionLimit from
      (by simp [Item.Fits] : Item.Fits _ (255 + 1) _)) []
  rw [List.append_nil] at hitem
  refine ⟨(hold tinyllamaV021).1, (hold tinyllamaV021).2, hbad _ _ [9] _ hitem ?_ ?_ ?_⟩
  · exact ⟨_, .text "verifying_key_bytes", .bytes [9], rfl, List.mem_singleton_self _, rfl, rfl⟩
  · decide
  · decide

end Parseh.Core
