import Mathlib.Data.Rat.Defs
import Parseh.Wire.Basic

/-!
# Wire messages and the code outside the repository

The signed messages of the protocol, field by field, and `Externals`: the parts
of the program that live in third-party crates.  Nothing is assumed about them
here; a theorem that needs one of their properties takes it as a hypothesis.

`WeightArith` is the floating-point arithmetic of the reputation tally.  The
model is generic in it: `ℚ` gives exact weights, and every statement that does
not fix the carrier also holds of IEEE doubles.
-/

namespace Parseh.Wire

/-! ## Capability advertisements (`parseh-core`) -/

inductive ServiceKind
  | inference | relay | storage | wallet
  deriving DecidableEq

structure InferenceCapability where
  models : List String
  contextSize : UInt32
  estimatedTokensPerSec : UInt32
  deriving DecidableEq

structure RelayCapability where
  bandwidthMbps : UInt32
  transportKinds : List String
  deriving DecidableEq

structure StorageCapability where
  freeMb : UInt64
  persistenceGuarantee : String
  deriving DecidableEq

inductive ReadinessState
  | initialised | connected | listening | ready | active | degraded | stopped
  deriving DecidableEq

/-- May a peer in this state be selected for new work? -/
def ReadinessState.isEligible : ReadinessState → Bool
  | .ready | .active => true
  | _ => false

abbrev Multiaddr := String

structure CapabilityAdvertisement where
  peerId : PeerId
  version : UInt32
  services : List ServiceKind
  inference : Option InferenceCapability
  relay : Option RelayCapability
  storage : Option StorageCapability
  networkAddress : Multiaddr
  signedAt : UInt64
  ttlSeconds : UInt32
  verifyingKeyBytes : Array32
  reachableAddrs : List Multiaddr
  readiness : ReadinessState
  hasExternalInternet : Bool
  bandwidthMbpsExternal : Option UInt32
  deriving DecidableEq

/-- The legacy V0.1 payload of `parseh.caps.v1`. -/
structure NodeCapabilities where
  relay : Bool
  inference : Bool
  gpuMemoryMb : UInt32
  modelTags : List String
  uplinkMbps : UInt32
  deriving DecidableEq

/-! ## Task messages (`parseh-task`) -/

/-- `WIRE_VERSION`, embedded in every message. -/
def wireVersion : UInt32 := 1

inductive JobKind
  | inference | relay | storage
  deriving DecidableEq

structure JobInputs where
  promptText : Option String
  seed : Option UInt64
  maxTokens : Option UInt32
  contentRefs : List ContentHash
  deriving DecidableEq

structure JobSpec where
  wireVersion : UInt32
  kind : JobKind
  inputs : JobInputs
  service : ServiceKind
  sensitive : Bool
  submittedAt : UInt64
  submitter : PeerId
  signature : Bytes
  deriving DecidableEq

inductive VerifierMethod
  | deterministic | spotCheck | statistical
  deriving DecidableEq

structure ResultMeta where
  verifierMethod : VerifierMethod
  executionTimeMs : UInt64
  modelUsed : Option String
  inferenceTokenCount : Option UInt32
  deriving DecidableEq

structure JobResult where
  wireVersion : UInt32
  specHash : ContentHash
  executor : PeerId
  executedAt : UInt64
  resultMeta : ResultMeta
  resultPayload : Bytes
  signature : Bytes
  deriving DecidableEq

inductive VerifierVerdict
  | agreed
  | disagreed (evidenceHash : ContentHash)
  | abstained
  deriving DecidableEq

structure JobVerification where
  wireVersion : UInt32
  resultHash : ContentHash
  verifier : PeerId
  verdict : VerifierVerdict
  methodUsed : VerifierMethod
  verifiedAt : UInt64
  signature : Bytes
  deriving DecidableEq

inductive OutcomeVerdict (W : Type)
  | valid (agreements disagreements abstentions : UInt32) (reputationWeighted : W)
  | disputed (disputers : List PeerId)
  | indeterminate
  deriving DecidableEq

structure JobOutcome (W : Type) where
  wireVersion : UInt32
  specHash : ContentHash
  resultHash : ContentHash
  verificationHashes : List ContentHash
  verdict : OutcomeVerdict W
  finalisedAt : UInt64
  observedBy : PeerId
  signature : Bytes
  deriving DecidableEq

structure StateSyncRequest where
  wireVersion : UInt32
  sinceUnix : UInt64
  maxOutcomes : UInt32
  requester : PeerId
  signedAt : UInt64
  signature : Bytes
  deriving DecidableEq

structure StateSyncResponse (W : Type) where
  wireVersion : UInt32
  outcomes : List (JobOutcome W)
  truncated : Bool
  responder : PeerId
  signedAt : UInt64
  signature : Bytes
  deriving DecidableEq

/-! ## State deltas (`parseh-shared-state`) -/

/-- The `WIRE_VERSION` of the delta crate. -/
def deltaWireVersion : UInt32 := 1

inductive DeltaKind (W : Type)
  | outcome (o : JobOutcome W)
  | reputation (peer : PeerId) (delta : Int32) (reason : String)
      (relatedHash : Option ContentHash)
  | governanceRule (ruleName ruleValue : String) (proposer : PeerId) (approvers : List PeerId)
  deriving DecidableEq

structure StateDelta (W : Type) where
  wireVersion : UInt32
  kind : DeltaKind W
  observer : PeerId
  observedAt : UInt64
  signature : Bytes
  deriving DecidableEq

/-! ## Code outside the repository -/

/-- `to_cbor_bytes` and `from_cbor_bytes` at one type. -/
structure Codec (α : Type) where
  encode : α → Bytes
  decode : Bytes → Option α

/-- ciborium, serde_json, sha2, ed25519-dalek and libp2p, as far as the modelled
code calls them. -/
structure Externals (W : Type) where
  specCbor : Codec JobSpec
  resultCbor : Codec JobResult
  verificationCbor : Codec JobVerification
  outcomeCbor : Codec (JobOutcome W)
  deltaCbor : Codec (StateDelta W)
  syncRequestCbor : Codec StateSyncRequest
  syncResponseCbor : Codec (StateSyncResponse W)
  /-- `to_cbor_bytes` of the approvers of a governance rule. -/
  approversCbor : List Bytes → Bytes
  advertisementCbor : Codec CapabilityAdvertisement
  /-- `serde_json::from_slice::<NodeCapabilities>`. -/
  legacyCapsJson : Bytes → Option NodeCapabilities
  sha256 : Bytes → Array32
  /-- `signing_key.sign(bytes).to_bytes()`. -/
  sign : SigningKey → Bytes → Bytes
  /-- `verifying_key.verify(bytes, sig)`, with the text of its error. -/
  verify : VerifyingKey → Bytes → Bytes → Except String Unit
  /-- Does the 32-byte string decompress to a curve point? -/
  isPoint : Array32 → Bool
  /-- `Display` of a `PeerId` (base58). -/
  displayPeer : PeerId → String

/-- The `f64` operations of the quorum tally. -/
class WeightArith (W : Type) where
  /-- `0.0`. -/
  zero : W
  /-- `a as f64 / b as f64`. -/
  ratio : Nat → Nat → W
  /-- `w >= t`. -/
  ge : W → W → Bool
  /-- `1.0 - w`. -/
  oneSub : W → W

/-- Exact weights. -/
instance : WeightArith ℚ where
  zero := 0
  ratio a b := (a : ℚ) / (b : ℚ)
  ge w t := decide (t ≤ w)
  oneSub w := 1 - w

/-! ## Signing and hashing -/

inductive SignError
  | verify (text : String)
  | invalidSignatureBytes
  | invalidPubkeyBytes
  deriving DecidableEq

/-- `Display` of a `SignError`. -/
def SignError.display : SignError → String
  | .verify text => "verify failed: " ++ text
  | .invalidSignatureBytes => "invalid signature bytes"
  | .invalidPubkeyBytes => "invalid public key bytes"

/-- The errors of `verify_delta`. -/
inductive DeltaSignError
  | wireVersion (expected actual : UInt32)
  | verify (text : String)
  | invalidSignatureLength (length : Nat)
  | cborEncode (text : String)
  | innerOutcomeSignature (e : SignError)
  deriving DecidableEq

section

variable {W : Type} (x : Externals W)

/-- `verify_bytes`: the signature must be 64 bytes long and verify. -/
def verifyBytes (key : VerifyingKey) (bytes sig : Bytes) : Except SignError Unit :=
  if sig.length ≠ 64 then .error .invalidSignatureBytes
  else
    match x.verify key bytes sig with
    | .ok () => .ok ()
    | .error text => .error (.verify text)

/-- `content_hash`: SHA-256 over CBOR bytes. -/
def contentHash (cbor : Bytes) : ContentHash := ⟨x.sha256 cbor⟩

def JobSpec.contentHash (s : JobSpec) : ContentHash := Wire.contentHash x (x.specCbor.encode s)

def JobResult.contentHash (r : JobResult) : ContentHash :=
  Wire.contentHash x (x.resultCbor.encode r)

def JobVerification.contentHash (v : JobVerification) : ContentHash :=
  Wire.contentHash x (x.verificationCbor.encode v)

def JobOutcome.contentHash (o : JobOutcome W) : ContentHash :=
  Wire.contentHash x (x.outcomeCbor.encode o)

-- Every message is signed over its own encoding with an empty signature field.

def JobSpec.verifySignature (s : JobSpec) (key : VerifyingKey) : Except SignError Unit :=
  verifyBytes x key (x.specCbor.encode { s with signature := [] }) s.signature

def JobResult.verifySignature (r : JobResult) (key : VerifyingKey) : Except SignError Unit :=
  verifyBytes x key (x.resultCbor.encode { r with signature := [] }) r.signature

def JobVerification.verifySignature (v : JobVerification) (key : VerifyingKey) :
    Except SignError Unit :=
  verifyBytes x key (x.verificationCbor.encode { v with signature := [] }) v.signature

def JobOutcome.verifySignature (o : JobOutcome W) (key : VerifyingKey) : Except SignError Unit :=
  verifyBytes x key (x.outcomeCbor.encode { o with signature := [] }) o.signature

-- Unlike the others, the two sync envelopes also pin their wire version.

/-- The error of an envelope of another version. -/
def wireVersionMismatch (actual : UInt32) : SignError :=
  .verify (s!"wire version mismatch: expected {Wire.wireVersion}, got " ++ toString actual)

def StateSyncRequest.verifySignature (r : StateSyncRequest) (key : VerifyingKey) :
    Except SignError Unit :=
  if r.wireVersion ≠ Wire.wireVersion then .error (wireVersionMismatch r.wireVersion)
  else verifyBytes x key (x.syncRequestCbor.encode { r with signature := [] }) r.signature

def StateSyncResponse.verifySignature (r : StateSyncResponse W) (key : VerifyingKey) :
    Except SignError Unit :=
  if r.wireVersion ≠ Wire.wireVersion then .error (wireVersionMismatch r.wireVersion)
  else verifyBytes x key (x.syncResponseCbor.encode { r with signature := [] }) r.signature

/-- `JobResult::new_signed_at`. -/
def JobResult.newSignedAt (specHash : ContentHash) (executor : PeerId) (executedAt : UInt64)
    (resultMeta : ResultMeta) (resultPayload : Bytes) (key : SigningKey) :
    JobResult × ContentHash :=
  let unsigned : JobResult :=
    { wireVersion := Wire.wireVersion, specHash, executor, executedAt, resultMeta,
      resultPayload, signature := [] }
  let r := { unsigned with signature := x.sign key (x.resultCbor.encode unsigned) }
  (r, r.contentHash x)

/-- `JobVerification::new_signed_at`. -/
def JobVerification.newSignedAt (resultHash : ContentHash) (verifier : PeerId)
    (verdict : VerifierVerdict) (methodUsed : VerifierMethod) (verifiedAt : UInt64)
    (key : SigningKey) : JobVerification × ContentHash :=
  let unsigned : JobVerification :=
    { wireVersion := Wire.wireVersion, resultHash, verifier, verdict, methodUsed, verifiedAt,
      signature := [] }
  let v := { unsigned with signature := x.sign key (x.verificationCbor.encode unsigned) }
  (v, v.contentHash x)

/-- `JobOutcome::new_signed_at`. -/
def JobOutcome.newSignedAt (specHash resultHash : ContentHash)
    (verificationHashes : List ContentHash) (verdict : OutcomeVerdict W) (finalisedAt : UInt64)
    (observedBy : PeerId) (key : SigningKey) : JobOutcome W × ContentHash :=
  let unsigned : JobOutcome W :=
    { wireVersion := Wire.wireVersion, specHash, resultHash, verificationHashes, verdict,
      finalisedAt, observedBy, signature := [] }
  let o := { unsigned with signature := x.sign key (x.outcomeCbor.encode unsigned) }
  (o, o.contentHash x)

/-- `StateSyncRequest::new_signed`. -/
def StateSyncRequest.newSigned (sinceUnix : UInt64) (maxOutcomes : UInt32) (requester : PeerId)
    (signedAt : UInt64) (key : SigningKey) : StateSyncRequest :=
  let unsigned : StateSyncRequest :=
    { wireVersion := Wire.wireVersion, sinceUnix, maxOutcomes, requester, signedAt,
      signature := [] }
  { unsigned with signature := x.sign key (x.syncRequestCbor.encode unsigned) }

/-- `StateSyncResponse::new_signed`. -/
def StateSyncResponse.newSigned (outcomes : List (JobOutcome W)) (truncated : Bool)
    (responder : PeerId) (signedAt : UInt64) (key : SigningKey) : StateSyncResponse W :=
  let unsigned : StateSyncResponse W :=
    { wireVersion := Wire.wireVersion, outcomes, truncated, responder, signedAt,
      signature := [] }
  { unsigned with signature := x.sign key (x.syncResponseCbor.encode unsigned) }

/-- `StateDelta::unsigned`. -/
def StateDelta.unsigned (kind : DeltaKind W) (observer : PeerId) (observedAt : UInt64) :
    StateDelta W :=
  { wireVersion := Wire.wireVersion, kind, observer, observedAt, signature := [] }

/-- `sign_delta`. -/
def signDelta (d : StateDelta W) (key : SigningKey) : StateDelta W :=
  { d with signature := x.sign key (x.deltaCbor.encode { d with signature := [] }) }

/-- `verify_delta`: the envelope only; the inner outcome is not looked at. -/
def verifyDelta (d : StateDelta W) (key : VerifyingKey) : Except DeltaSignError Unit :=
  if d.wireVersion ≠ deltaWireVersion then .error (.wireVersion deltaWireVersion d.wireVersion)
  else if d.signature.length ≠ 64 then .error (.invalidSignatureLength d.signature.length)
  else
    match x.verify key (x.deltaCbor.encode { d with signature := [] }) d.signature with
    | .ok () => .ok ()
    | .error text => .error (.verify text)

/-- The key an advertisement carries; the all-zero array means "none". -/
def CapabilityAdvertisement.verifyingKey (ad : CapabilityAdvertisement) : Option VerifyingKey :=
  if ad.verifyingKeyBytes = Array32.replicate 0 then none
  else if x.isPoint ad.verifyingKeyBytes then some ⟨ad.verifyingKeyBytes⟩ else none

end

end Parseh.Wire
