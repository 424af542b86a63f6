import Mathlib.Data.List.Nodup
import Parseh.Wire.Messages

/-!
# A finite instance of the external code

Concrete externals over finite tables: a message is encoded as the bytes its
table gives it, hashing pads to 32 bytes, and a signature is the key itself
written twice, so that it verifies under its own key only.  Every statement
about the program on a concrete input is evaluated over such an instance.
-/

namespace Parseh.Wire

/-- The codec that knows the messages of `table` only.  An unlisted message is
encoded as the empty string, which decodes to nothing. -/
def Codec.ofTable {α : Type} [DecidableEq α] (table : List (Bytes × α)) : Codec α where
  encode a := ((table.find? fun e => e.2 = a).map Prod.fst).getD []
  decode b := (table.find? fun e => e.1 = b).map Prod.snd

/-- A table without repeated encodings reads back what it writes. -/
theorem Codec.ofTable_reencodes {α : Type} [DecidableEq α] {table : List (Bytes × α)}
    (h : (table.map Prod.fst).Nodup) (b : Bytes) (a : α)
    (hb : (Codec.ofTable table).decode b = some a) :
    (Codec.ofTable table).decode ((Codec.ofTable table).encode a) = some a := by
  obtain ⟨e, he, rfl⟩ := Option.map_eq_some_iff.mp hb
  have hmem : e ∈ table := List.mem_of_find?_eq_some he
  cases hf : table.find? (fun e' => e'.2 = e.2) with
  | none => exact absurd (List.find?_eq_none.mp hf e hmem) (by simp)
  | some f =>
    have hfmem : f ∈ table := List.mem_of_find?_eq_some hf
    have hfe : f.2 = e.2 := by simpa using List.find?_some hf
    have henc : (Codec.ofTable table).encode e.2 = f.1 := by simp [Codec.ofTable, hf]
    rw [henc]
    simp only [Codec.ofTable]
    cases hg : table.find? (fun e' => e'.1 = f.1) with
    | none => exact absurd (List.find?_eq_none.mp hg f hfmem) (by simp)
    | some g =>
      have hgf : g.1 = f.1 := by simpa using List.find?_some hg
      have heq := List.inj_on_of_nodup_map h (List.mem_of_find?_eq_some hg) hfmem hgf
      rw [heq, Option.map_some, hfe]

/-- The first 32 bytes, filled up with zeros. -/
def pad32 (b : Bytes) : Array32 :=
  ⟨(b ++ List.replicate 32 0).take 32, by simp⟩

/-- The public half of a secret key. -/
def SigningKey.verifyingKey (k : SigningKey) : VerifyingKey := ⟨k.secret⟩

/-- Decimal digits of the first byte. -/
def showPeer (p : PeerId) : String := toString (p.toBytes.head?.map UInt8.toNat |>.getD 0)

/-- Externals over tables of messages. -/
def Externals.ofTables {W : Type} [DecidableEq W] (specs : List (Bytes × JobSpec))
    (results : List (Bytes × JobResult)) (verifications : List (Bytes × JobVerification))
    (advertisements : List (Bytes × CapabilityAdvertisement)) : Externals W where
  specCbor := Codec.ofTable specs
  resultCbor := Codec.ofTable results
  verificationCbor := Codec.ofTable verifications
  outcomeCbor := ⟨fun o => o.resultHash.asBytes.bytes.take 1 ++ u64LeBytes o.finalisedAt,
    fun _ => none⟩
  deltaCbor := Codec.ofTable []
  syncRequestCbor := Codec.ofTable []
  syncResponseCbor := Codec.ofTable []
  approversCbor bs := bs.flatten
  advertisementCbor := Codec.ofTable advertisements
  legacyCapsJson _ := none
  sha256 := pad32
  sign k _ := k.secret.bytes ++ k.secret.bytes
  verify k _ sig :=
    if sig = k.asBytes.bytes ++ k.asBytes.bytes then .ok () else .error "signature error"
  isPoint _ := true
  displayPeer := showPeer

/-- Externals with no listed message and exact weights. -/
def Externals.bare : Externals ℚ := Externals.ofTables [] [] [] []

/-- A signature that depends on what is signed: the sum of the bytes, 64 times. -/
def checksum (secret : Array32) (bytes : Bytes) : Bytes :=
  List.replicate 64 (bytes.foldl (· + ·) (secret.bytes.headD 0))

/-- Externals with such signatures, and floats as their bits. -/
def checksumExternals : Externals UInt64 :=
  { Externals.ofTables [] [] [] [] with
    sign := fun k bytes => checksum k.secret bytes
    verify := fun k bytes sig =>
      if sig = checksum k.asBytes bytes then .ok () else .error "signature error" }

/-! ## Peers and votes of one byte -/

/-- The peer with the one-byte identity `n`. -/
def peerOf (n : UInt8) : PeerId := ⟨[n]⟩

/-- The secret key of `peerOf n`. -/
def keyOf (n : UInt8) : SigningKey := ⟨Array32.replicate n⟩

/-- The hash that is `n` in every byte. -/
def hashOf (n : UInt8) : ContentHash := ⟨Array32.replicate n⟩

/-- The vote of `peerOf n` on `resultHash`, signed with its key. -/
def voteOf (resultHash : ContentHash) (n : UInt8) (verdict : VerifierVerdict) :
    JobVerification where
  wireVersion := wireVersion
  resultHash := resultHash
  verifier := peerOf n
  verdict := verdict
  methodUsed := .deterministic
  verifiedAt := 0
  signature := List.replicate 64 n

/-! ## A small network

Peer 1 executes, peer 2 submits, the peers from 11 on verify.  Every one of them
advertises inference, so another node elects itself only if it is smaller. -/

def adOf (n : UInt8) : CapabilityAdvertisement where
  peerId := peerOf n
  version := 2
  services := [.inference]
  inference := none
  relay := none
  storage := none
  networkAddress := ""
  signedAt := 0
  ttlSeconds := 300
  verifyingKeyBytes := Array32.replicate n
  reachableAddrs := []
  readiness := .ready
  hasExternalInternet := false
  bandwidthMbpsExternal := none

def adBytes (n : UInt8) : Bytes := [0xA0, n]

/-- The bytes that stand for the spec and for its result. -/
def specBytes (sensitive : Bool) : Bytes := if sensitive then [0x52] else [0x51]
def resultBytes (sensitive : Bool) : Bytes := if sensitive then [0x62] else [0x61]

def smallSpec (sensitive : Bool) : JobSpec where
  wireVersion := wireVersion
  kind := .inference
  inputs := { promptText := none, seed := some 1, maxTokens := none, contentRefs := [] }
  service := .inference
  sensitive := sensitive
  submittedAt := 0
  submitter := peerOf 2
  signature := List.replicate 64 2

def smallResult (sensitive : Bool) : JobResult where
  wireVersion := wireVersion
  specHash := ⟨pad32 (specBytes sensitive)⟩
  executor := peerOf 1
  executedAt := 0
  resultMeta := { verifierMethod := .deterministic, executionTimeMs := 1, modelUsed := none,
                  inferenceTokenCount := none }
  resultPayload := []
  signature := List.replicate 64 1

def smallResultHash (sensitive : Bool) : ContentHash := ⟨pad32 (resultBytes sensitive)⟩

/-- The votes on the result: `0x7A` agrees, `0x7D` disagrees. -/
def voteBytes (agrees : Bool) (n : UInt8) : Bytes := if agrees then [0x7A, n] else [0x7D, n]

def smallVote (sensitive agrees : Bool) (n : UInt8) : JobVerification :=
  voteOf (smallResultHash sensitive) n (if agrees then .agreed else .disagreed (hashOf 8))

/-- An outcome observed and signed by `peerOf n`. -/
def outcomeOf (specHash resultHash : ContentHash) (verdict : OutcomeVerdict ℚ)
    (finalisedAt : UInt64) (n : UInt8) : JobOutcome ℚ where
  wireVersion := wireVersion
  specHash := specHash
  resultHash := resultHash
  verificationHashes := []
  verdict := verdict
  finalisedAt := finalisedAt
  observedBy := peerOf n
  signature := List.replicate 64 n

def smallSpecHash (sensitive : Bool) : ContentHash := ⟨pad32 (specBytes sensitive)⟩

/-- The network with one spec, its result and the votes of `agree` and `disagree`. -/
def Externals.small (sensitive : Bool) (peers agree disagree : List UInt8) : Externals ℚ :=
  Externals.ofTables [(specBytes sensitive, smallSpec sensitive)]
    [(resultBytes sensitive, smallResult sensitive)]
    (agree.map (fun n => (voteBytes true n, smallVote sensitive true n)) ++
      disagree.map fun n => (voteBytes false n, smallVote sensitive false n))
    (peers.map fun n => (adBytes n, adOf n))

end Parseh.Wire
