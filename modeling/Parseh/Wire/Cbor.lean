import Parseh.Lib.Serde
import Parseh.Wire.Messages

/-!
# The wire format of the signed messages (`parseh-task`, `parseh-shared-state`)

How serde writes the seven signed messages and the types inside them as CBOR data
items, and reads them back.  ciborium is `Cbor`: it writes and reads single tokens,
and libp2p reads a peer id from its bytes.

The lemmas `faithful_*` say of every type that what is written is read back, as far
as no float in it is a NaN.
-/

namespace Parseh.Wire

open Parseh.Lib.Cbor

variable {W : Type}

/-- ciborium's tokens and `PeerId::from_bytes`. -/
structure Cbor (W : Type) where
  tokens : TokenCodec W
  peerOfBytes : Bytes → Option PeerId

/-- Single tokens are read back, floats other than NaN included, and a peer id is
read from its bytes. -/
structure Cbor.Lawful (c : Cbor W) (isNan : W → Bool) : Prop where
  tokens : c.tokens.Lawful fun w => isNan w = false
  peer : ∀ p : PeerId, c.peerOfBytes p.toBytes = some p

/-- ciborium's limit on nested containers. -/
def recursionLimit : Nat := 256

/-- `to_cbor_bytes` and `from_cbor_bytes` at a type; bytes behind the value are not
looked at. -/
def Cbor.codec (c : Cbor W) {α : Type} (s : Serde W α) : Codec α where
  encode a := encode c.tokens (s.ser a)
  decode bytes := (decode c.tokens recursionLimit bytes).bind fun r => s.de r.1

/-! ## The types inside the messages -/

def ContentHash.ofSlice (b : Bytes) : Option ContentHash :=
  if h : b.length = 32 then some ⟨⟨b, h⟩⟩ else none

def ContentHash.serde : Serde W ContentHash :=
  .viaByteBuf (fun h => h.asBytes.bytes) ContentHash.ofSlice

def ServiceKind.name : ServiceKind → String
  | .inference => "Inference"
  | .relay => "Relay"
  | .storage => "Storage"
  | .wallet => "Wallet"

def ServiceKind.serde : Serde W ServiceKind :=
  .unitEnum ServiceKind.name [.inference, .relay, .storage, .wallet]

def JobKind.name : JobKind → String
  | .inference => "Inference"
  | .relay => "Relay"
  | .storage => "Storage"

def JobKind.serde : Serde W JobKind := .unitEnum JobKind.name [.inference, .relay, .storage]

def VerifierMethod.name : VerifierMethod → String
  | .deterministic => "Deterministic"
  | .spotCheck => "SpotCheck"
  | .statistical => "Statistical"

def VerifierMethod.serde : Serde W VerifierMethod :=
  .unitEnum VerifierMethod.name [.deterministic, .spotCheck, .statistical]

def JobInputs.serde : Serde W JobInputs where
  ser v := record
    [("prompt_text", (Serde.option .string).ser v.promptText),
     ("seed", (Serde.option .u64).ser v.seed),
     ("max_tokens", (Serde.option .u32).ser v.maxTokens),
     ("content_refs", (Serde.vec ContentHash.serde).ser v.contentRefs)]
  de i := do
    let m ← i.fields?
    let promptText ← field m "prompt_text" (.option .string) (some none)
    let seed ← field m "seed" (.option .u64) (some none)
    let maxTokens ← field m "max_tokens" (.option .u32) (some none)
    let contentRefs ← field m "content_refs" (.vec ContentHash.serde) none
    some { promptText, seed, maxTokens, contentRefs }

def ResultMeta.serde : Serde W ResultMeta where
  ser v := record
    [("verifier_method", VerifierMethod.serde.ser v.verifierMethod),
     ("execution_time_ms", Serde.u64.ser v.executionTimeMs),
     ("model_used", (Serde.option .string).ser v.modelUsed),
     ("inference_token_count", (Serde.option .u32).ser v.inferenceTokenCount)]
  de i := do
    let m ← i.fields?
    let verifierMethod ← field m "verifier_method" VerifierMethod.serde none
    let executionTimeMs ← field m "execution_time_ms" .u64 none
    let modelUsed ← field m "model_used" (.option .string) (some none)
    let inferenceTokenCount ← field m "inference_token_count" (.option .u32) (some none)
    some { verifierMethod, executionTimeMs, modelUsed, inferenceTokenCount }

def VerifierVerdict.serde : Serde W VerifierVerdict where
  ser
    | .agreed => .text "Agreed"
    | .disagreed evidenceHash =>
      record [("Disagreed", record [("evidence_hash", ContentHash.serde.ser evidenceHash)])]
    | .abstained => .text "Abstained"
  de i := do
    match ← i.variant? with
    | ("Agreed", none) => some .agreed
    | ("Disagreed", some i) =>
      let m ← i.fields?
      let evidenceHash ← field m "evidence_hash" ContentHash.serde none
      some (.disagreed evidenceHash)
    | ("Abstained", none) => some .abstained
    | _ => none

section

variable (c : Cbor W)

def PeerId.serde : Serde W PeerId := .viaBytes PeerId.toBytes c.peerOfBytes

def OutcomeVerdict.serde : Serde W (OutcomeVerdict W) where
  ser
    | .valid agreements disagreements abstentions reputationWeighted =>
      record [("Valid", record
        [("agreements", Serde.u32.ser agreements),
         ("disagreements", Serde.u32.ser disagreements),
         ("abstentions", Serde.u32.ser abstentions),
         ("reputation_weighted", Serde.float.ser reputationWeighted)])]
    | .disputed disputers =>
      record [("Disputed", record [("disputers", (Serde.vec (PeerId.serde c)).ser disputers)])]
    | .indeterminate => .text "Indeterminate"
  de i := do
    match ← i.variant? with
    | ("Valid", some i) =>
      let m ← i.fields?
      let agreements ← field m "agreements" .u32 none
      let disagreements ← field m "disagreements" .u32 none
      let abstentions ← field m "abstentions" .u32 none
      let reputationWeighted ← field m "reputation_weighted" .float none
      some (.valid agreements disagreements abstentions reputationWeighted)
    | ("Disputed", some i) =>
      let m ← i.fields?
      let disputers ← field m "disputers" (.vec (PeerId.serde c)) none
      some (.disputed disputers)
    | ("Indeterminate", none) => some .indeterminate
    | _ => none

/-! ## The signed messages -/

def JobSpec.serde : Serde W JobSpec where
  ser v := record
    [("wire_version", Serde.u32.ser v.wireVersion),
     ("kind", JobKind.serde.ser v.kind),
     ("inputs", JobInputs.serde.ser v.inputs),
     ("service", ServiceKind.serde.ser v.service),
     ("sensitive", Serde.bool.ser v.sensitive),
     ("submitted_at", Serde.u64.ser v.submittedAt),
     ("submitter", (PeerId.serde c).ser v.submitter),
     ("signature", Serde.byteBuf.ser v.signature)]
  de i := do
    let m ← i.fields?
    let wireVersion ← field m "wire_version" .u32 none
    let kind ← field m "kind" JobKind.serde none
    let inputs ← field m "inputs" JobInputs.serde none
    let service ← field m "service" ServiceKind.serde none
    let sensitive ← field m "sensitive" .bool none
    let submittedAt ← field m "submitted_at" .u64 none
    let submitter ← field m "submitter" (PeerId.serde c) none
    let signature ← field m "signature" .byteBuf none
    some { wireVersion, kind, inputs, service, sensitive, submittedAt, submitter, signature }

def JobResult.serde : Serde W JobResult where
  ser v := record
    [("wire_version", Serde.u32.ser v.wireVersion),
     ("spec_hash", ContentHash.serde.ser v.specHash),
     ("executor", (PeerId.serde c).ser v.executor),
     ("executed_at", Serde.u64.ser v.executedAt),
     ("result_meta", ResultMeta.serde.ser v.resultMeta),
     ("result_payload", Serde.byteBuf.ser v.resultPayload),
     ("signature", Serde.byteBuf.ser v.signature)]
  de i := do
    let m ← i.fields?
    let wireVersion ← field m "wire_version" .u32 none
    let specHash ← field m "spec_hash" ContentHash.serde none
    let executor ← field m "executor" (PeerId.serde c) none
    let executedAt ← field m "executed_at" .u64 none
    let resultMeta ← field m "result_meta" ResultMeta.serde none
    let resultPayload ← field m "result_payload" .byteBuf none
    let signature ← field m "signature" .byteBuf none
    some { wireVersion, specHash, executor, executedAt, resultMeta, resultPayload, signature }

def JobVerification.serde : Serde W JobVerification where
  ser v := record
    [("wire_version", Serde.u32.ser v.wireVersion),
     ("result_hash", ContentHash.serde.ser v.resultHash),
     ("verifier", (PeerId.serde c).ser v.verifier),
     ("verdict", VerifierVerdict.serde.ser v.verdict),
     ("method_used", VerifierMethod.serde.ser v.methodUsed),
     ("verified_at", Serde.u64.ser v.verifiedAt),
     ("signature", Serde.byteBuf.ser v.signature)]
  de i := do
    let m ← i.fields?
    let wireVersion ← field m "wire_version" .u32 none
    let resultHash ← field m "result_hash" ContentHash.serde none
    let verifier ← field m "verifier" (PeerId.serde c) none
    let verdict ← field m "verdict" VerifierVerdict.serde none
    let methodUsed ← field m "method_used" VerifierMethod.serde none
    let verifiedAt ← field m "verified_at" .u64 none
    let signature ← field m "signature" .byteBuf none
    some { wireVersion, resultHash, verifier, verdict, methodUsed, verifiedAt, signature }

def JobOutcome.serde : Serde W (JobOutcome W) where
  ser v := record
    [("wire_version", Serde.u32.ser v.wireVersion),
     ("spec_hash", ContentHash.serde.ser v.specHash),
     ("result_hash", ContentHash.serde.ser v.resultHash),
     ("verification_hashes", (Serde.vec ContentHash.serde).ser v.verificationHashes),
     ("verdict", (OutcomeVerdict.serde c).ser v.verdict),
     ("finalised_at", Serde.u64.ser v.finalisedAt),
     ("observed_by", (PeerId.serde c).ser v.observedBy),
     ("signature", Serde.byteBuf.ser v.signature)]
  de i := do
    let m ← i.fields?
    let wireVersion ← field m "wire_version" .u32 none
    let specHash ← field m "spec_hash" ContentHash.serde none
    let resultHash ← field m "result_hash" ContentHash.serde none
    let verificationHashes ← field m "verification_hashes" (.vec ContentHash.serde) none
    let verdict ← field m "verdict" (OutcomeVerdict.serde c) none
    let finalisedAt ← field m "finalised_at" .u64 none
    let observedBy ← field m "observed_by" (PeerId.serde c) none
    let signature ← field m "signature" .byteBuf none
    some { wireVersion, specHash, resultHash, verificationHashes, verdict, finalisedAt, observedBy,
           signature }

def StateSyncRequest.serde : Serde W StateSyncRequest where
  ser v := record
    [("wire_version", Serde.u32.ser v.wireVersion),
     ("since_unix", Serde.u64.ser v.sinceUnix),
     ("max_outcomes", Serde.u32.ser v.maxOutcomes),
     ("requester", (PeerId.serde c).ser v.requester),
     ("signed_at", Serde.u64.ser v.signedAt),
     ("signature", Serde.byteBuf.ser v.signature)]
  de i := do
    let m ← i.fields?
    let wireVersion ← field m "wire_version" .u32 none
    let sinceUnix ← field m "since_unix" .u64 none
    let maxOutcomes ← field m "max_outcomes" .u32 none
    let requester ← field m "requester" (PeerId.serde c) none
    let signedAt ← field m "signed_at" .u64 none
    let signature ← field m "signature" .byteBuf none
    some { wireVersion, sinceUnix, maxOutcomes, requester, signedAt, signature }

def StateSyncResponse.serde : Serde W (StateSyncResponse W) where
  ser v := record
    [("wire_version", Serde.u32.ser v.wireVersion),
     ("outcomes", (Serde.vec (JobOutcome.serde c)).ser v.outcomes),
     ("truncated", Serde.bool.ser v.truncated),
     ("responder", (PeerId.serde c).ser v.responder),
     ("signed_at", Serde.u64.ser v.signedAt),
     ("signature", Serde.byteBuf.ser v.signature)]
  de i := do
    let m ← i.fields?
    let wireVersion ← field m "wire_version" .u32 none
    let outcomes ← field m "outcomes" (.vec (JobOutcome.serde c)) none
    let truncated ← field m "truncated" .bool none
    let responder ← field m "responder" (PeerId.serde c) none
    let signedAt ← field m "signed_at" .u64 none
    let signature ← field m "signature" .byteBuf none
    some { wireVersion, outcomes, truncated, responder, signedAt, signature }

def DeltaKind.serde : Serde W (DeltaKind W) where
  ser
    | .outcome o => record [("Outcome", (JobOutcome.serde c).ser o)]
    | .reputation peer delta reason relatedHash =>
      record [("Reputation", record
        [("peer", (PeerId.serde c).ser peer),
         ("delta", Serde.i32.ser delta),
         ("reason", Serde.string.ser reason),
         ("related_hash", (Serde.option ContentHash.serde).ser relatedHash)])]
    | .governanceRule ruleName ruleValue proposer approvers =>
      record [("GovernanceRule", record
        [("rule_name", Serde.string.ser ruleName),
         ("rule_value", Serde.string.ser ruleValue),
         ("proposer", (PeerId.serde c).ser proposer),
         ("approvers", (Serde.vec (PeerId.serde c)).ser approvers)])]
  de i := do
    match ← i.variant? with
    | ("Outcome", some i) => ((JobOutcome.serde c).de i).map .outcome
    | ("Reputation", some i) =>
      let m ← i.fields?
      let peer ← field m "peer" (PeerId.serde c) none
      let delta ← field m "delta" .i32 none
      let reason ← field m "reason" .string none
      let relatedHash ← field m "related_hash" (.option ContentHash.serde) (some none)
      some (.reputation peer delta reason relatedHash)
    | ("GovernanceRule", some i) =>
      let m ← i.fields?
      let ruleName ← field m "rule_name" .string none
      let ruleValue ← field m "rule_value" .string none
      let proposer ← field m "proposer" (PeerId.serde c) none
      let approvers ← field m "approvers" (.vec (PeerId.serde c)) none
      some (.governanceRule ruleName ruleValue proposer approvers)
    | _ => none

def StateDelta.serde : Serde W (StateDelta W) where
  ser v := record
    [("wire_version", Serde.u32.ser v.wireVersion),
     ("kind", (DeltaKind.serde c).ser v.kind),
     ("observer", (PeerId.serde c).ser v.observer),
     ("observed_at", Serde.u64.ser v.observedAt),
     ("signature", Serde.byteBuf.ser v.signature)]
  de i := do
    let m ← i.fields?
    let wireVersion ← field m "wire_version" .u32 none
    let kind ← field m "kind" (DeltaKind.serde c) none
    let observer ← field m "observer" (PeerId.serde c) none
    let observedAt ← field m "observed_at" .u64 none
    let signature ← field m "signature" .byteBuf none
    some { wireVersion, kind, observer, observedAt, signature }

/-- The externals with the codecs of the seven messages as serde derives them. -/
def Externals.withCbor (x : Externals W) : Externals W :=
  { x with
    specCbor := c.codec (JobSpec.serde c)
    resultCbor := c.codec (JobResult.serde c)
    verificationCbor := c.codec (JobVerification.serde c)
    outcomeCbor := c.codec (JobOutcome.serde c)
    deltaCbor := c.codec (StateDelta.serde c)
    syncRequestCbor := c.codec (StateSyncRequest.serde c)
    syncResponseCbor := c.codec (StateSyncResponse.serde c) }

end

/-! ## What is written is read back -/

theorem ContentHash.ofSlice_bytes (h : ContentHash) : ofSlice h.asBytes.bytes = some h := by
  simp [ofSlice, h.asBytes.size]

@[simp] theorem de_ser_contentHash (h : ContentHash) :
    (ContentHash.serde : Serde W _).de (ContentHash.serde.ser h) = some h :=
  Serde.de_ser_viaByteBuf (ContentHash.ofSlice_bytes h)

@[simp] theorem de_ser_serviceKind (k : ServiceKind) :
    (ServiceKind.serde : Serde W _).de (ServiceKind.serde.ser k) = some k :=
  Serde.de_ser_unitEnum (by cases k <;> decide) (by cases k <;> decide)

@[simp] theorem de_ser_jobKind (k : JobKind) :
    (JobKind.serde : Serde W _).de (JobKind.serde.ser k) = some k :=
  Serde.de_ser_unitEnum (by cases k <;> decide) (by cases k <;> decide)

@[simp] theorem de_ser_verifierMethod (v : VerifierMethod) :
    (VerifierMethod.serde : Serde W _).de (VerifierMethod.serde.ser v) = some v :=
  Serde.de_ser_unitEnum (by cases v <;> decide) (by cases v <;> decide)

@[simp] theorem de_ser_option_string (o : Option String) :
    (Serde.option .string : Serde W _).de ((Serde.option .string).ser o) = some o :=
  Serde.de_ser_option (fun _ _ => rfl) fun s => by simp [Serde.string]

@[simp] theorem de_ser_option_u64 (o : Option UInt64) :
    (Serde.option .u64 : Serde W _).de ((Serde.option .u64).ser o) = some o :=
  Serde.de_ser_option (fun _ _ => rfl) fun n => by simp [Serde.u64]

@[simp] theorem de_ser_option_u32 (o : Option UInt32) :
    (Serde.option .u32 : Serde W _).de ((Serde.option .u32).ser o) = some o :=
  Serde.de_ser_option (fun n _ => Serde.de_ser_u32 n) fun n => by simp [Serde.u32]

@[simp] theorem de_ser_option_contentHash (o : Option ContentHash) :
    (Serde.option ContentHash.serde : Serde W _).de
      ((Serde.option ContentHash.serde).ser o) = some o :=
  Serde.de_ser_option (fun h _ => de_ser_contentHash h)
    fun h => by simp [ContentHash.serde, Serde.viaByteBuf]

@[simp] theorem de_ser_contentHashes (hs : List ContentHash) :
    (Serde.vec ContentHash.serde : Serde W _).de ((Serde.vec ContentHash.serde).ser hs) = some hs :=
  Serde.de_ser_vec fun h _ => de_ser_contentHash h

@[simp] theorem de_ser_jobInputs (v : JobInputs) :
    (JobInputs.serde : Serde W _).de (JobInputs.serde.ser v) = some v := by
  simp [JobInputs.serde]

@[simp] theorem de_ser_resultMeta (v : ResultMeta) :
    (ResultMeta.serde : Serde W _).de (ResultMeta.serde.ser v) = some v := by
  simp [ResultMeta.serde]

@[simp] theorem de_ser_verifierVerdict (v : VerifierVerdict) :
    (VerifierVerdict.serde : Serde W _).de (VerifierVerdict.serde.ser v) = some v := by
  cases v <;> simp [VerifierVerdict.serde]

section

variable {c : Cbor W} {isNan : W → Bool} (hc : c.Lawful isNan)
include hc

theorem de_ser_peerId (p : PeerId) : (PeerId.serde c).de ((PeerId.serde c).ser p) = some p :=
  Serde.de_ser_viaBytes (hc.peer p)

theorem de_ser_peerIds (ps : List PeerId) :
    (Serde.vec (PeerId.serde c)).de ((Serde.vec (PeerId.serde c)).ser ps) = some ps :=
  Serde.de_ser_vec fun p _ => de_ser_peerId hc p

theorem de_ser_outcomeVerdict (v : OutcomeVerdict W) :
    (OutcomeVerdict.serde c).de ((OutcomeVerdict.serde c).ser v) = some v := by
  cases v <;> simp [OutcomeVerdict.serde, de_ser_peerIds hc]

theorem de_ser_jobSpec (v : JobSpec) : (JobSpec.serde c).de ((JobSpec.serde c).ser v) = some v := by
  simp [JobSpec.serde, de_ser_peerId hc]

theorem de_ser_jobResult (v : JobResult) :
    (JobResult.serde c).de ((JobResult.serde c).ser v) = some v := by
  simp [JobResult.serde, de_ser_peerId hc]

theorem de_ser_jobVerification (v : JobVerification) :
    (JobVerification.serde c).de ((JobVerification.serde c).ser v) = some v := by
  simp [JobVerification.serde, de_ser_peerId hc]

theorem de_ser_jobOutcome (v : JobOutcome W) :
    (JobOutcome.serde c).de ((JobOutcome.serde c).ser v) = some v := by
  simp [JobOutcome.serde, de_ser_peerId hc, de_ser_outcomeVerdict hc]

theorem de_ser_stateSyncRequest (v : StateSyncRequest) :
    (StateSyncRequest.serde c).de ((StateSyncRequest.serde c).ser v) = some v := by
  simp [StateSyncRequest.serde, de_ser_peerId hc]

theorem de_ser_stateSyncResponse (v : StateSyncResponse W) :
    (StateSyncResponse.serde c).de ((StateSyncResponse.serde c).ser v) = some v := by
  have houtcomes : (Serde.vec (JobOutcome.serde c)).de ((Serde.vec (JobOutcome.serde c)).ser v.outcomes) =
      some v.outcomes := Serde.de_ser_vec fun o _ => de_ser_jobOutcome hc o
  simp [StateSyncResponse.serde, de_ser_peerId hc, houtcomes]

theorem de_ser_deltaKind (v : DeltaKind W) :
    (DeltaKind.serde c).de ((DeltaKind.serde c).ser v) = some v := by
  cases v <;>
    simp [DeltaKind.serde, de_ser_peerId hc, de_ser_peerIds hc, de_ser_jobOutcome hc]

theorem de_ser_stateDelta (v : StateDelta W) :
    (StateDelta.serde c).de ((StateDelta.serde c).ser v) = some v := by
  simp [StateDelta.serde, de_ser_peerId hc, de_ser_deltaKind hc]

end

/-! ## What is written fits -/

/-- No float of the verdict is a NaN. -/
def OutcomeVerdict.NonNan (isNan : W → Bool) : OutcomeVerdict W → Prop
  | .valid _ _ _ reputationWeighted => isNan reputationWeighted = false
  | _ => True

def JobOutcome.NonNan (isNan : W → Bool) (o : JobOutcome W) : Prop := o.verdict.NonNan isNan

def StateSyncResponse.NonNan (isNan : W → Bool) (r : StateSyncResponse W) : Prop :=
  ∀ o ∈ r.outcomes, o.NonNan isNan

def StateDelta.NonNan (isNan : W → Bool) (d : StateDelta W) : Prop :=
  match d.kind with
  | .outcome o => o.NonNan isNan
  | _ => True

section

variable {ok : W → Prop} {depth : Nat}

@[simp] theorem fits_ser_contentHash (h : ContentHash) :
    ((ContentHash.serde : Serde W _).ser h).Fits ok depth := by
  simp [ContentHash.serde]

@[simp] theorem fits_ser_jobInputs (v : JobInputs) :
    ((JobInputs.serde : Serde W _).ser v).Fits ok (depth + 2) := by
  simp [JobInputs.serde]

@[simp] theorem fits_ser_resultMeta (v : ResultMeta) :
    ((ResultMeta.serde : Serde W _).ser v).Fits ok (depth + 1) := by
  simp [ResultMeta.serde, VerifierMethod.serde]

@[simp] theorem fits_ser_verifierVerdict (v : VerifierVerdict) :
    ((VerifierVerdict.serde : Serde W _).ser v).Fits ok (depth + 2) := by
  cases v <;> simp [VerifierVerdict.serde]

variable {c : Cbor W} {isNan : W → Bool}

@[simp] theorem fits_ser_peerId (p : PeerId) : ((PeerId.serde c).ser p).Fits ok depth := by
  simp [PeerId.serde]

theorem fits_ser_outcomeVerdict {v : OutcomeVerdict W} (h : v.NonNan isNan) :
    ((OutcomeVerdict.serde c).ser v).Fits (fun w => isNan w = false) (depth + 3) := by
  cases v <;> simp_all [OutcomeVerdict.serde, OutcomeVerdict.NonNan]

theorem fits_ser_jobSpec (v : JobSpec) : ((JobSpec.serde c).ser v).Fits ok (depth + 3) := by
  simp [JobSpec.serde, JobKind.serde, ServiceKind.serde]

theorem fits_ser_jobResult (v : JobResult) : ((JobResult.serde c).ser v).Fits ok (depth + 2) := by
  simp [JobResult.serde]

theorem fits_ser_jobVerification (v : JobVerification) :
    ((JobVerification.serde c).ser v).Fits ok (depth + 3) := by
  simp [JobVerification.serde, VerifierMethod.serde]

theorem fits_ser_jobOutcome {v : JobOutcome W} (h : v.NonNan isNan) :
    ((JobOutcome.serde c).ser v).Fits (fun w => isNan w = false) (depth + 4) := by
  simp [JobOutcome.serde, fits_ser_outcomeVerdict h]

theorem fits_ser_stateSyncRequest (v : StateSyncRequest) :
    ((StateSyncRequest.serde c).ser v).Fits ok (depth + 1) := by
  simp [StateSyncRequest.serde]

theorem fits_ser_stateSyncResponse {v : StateSyncResponse W} (h : v.NonNan isNan) :
    ((StateSyncResponse.serde c).ser v).Fits (fun w => isNan w = false) (depth + 6) := by
  have houtcomes : ∀ o ∈ v.outcomes,
      ((JobOutcome.serde c).ser o).Fits (fun w => isNan w = false) (depth + 4) :=
    fun o ho => fits_ser_jobOutcome (h o ho)
  simpa [StateSyncResponse.serde] using houtcomes

theorem fits_ser_stateDelta {v : StateDelta W} (h : v.NonNan isNan) :
    ((StateDelta.serde c).ser v).Fits (fun w => isNan w = false) (depth + 6) := by
  have hkind : ((DeltaKind.serde c).ser v.kind).Fits (fun w => isNan w = false) (depth + 5) := by
    unfold StateDelta.NonNan at h
    split at h
    · next o hk => simpa [hk, DeltaKind.serde] using fits_ser_jobOutcome h
    · next hk =>
      cases hkind : v.kind with
      | outcome o => exact absurd hkind (hk o)
      | reputation peer delta reason relatedHash => simp [DeltaKind.serde]
      | governanceRule ruleName ruleValue proposer approvers => simp [DeltaKind.serde]
  simp [StateDelta.serde, hkind]

end

/-! ## Codecs -/

/-- What a codec writes it reads back. -/
theorem decode_codec {c : Cbor W} {isNan : W → Bool} (hc : c.Lawful isNan) {α : Type}
    {s : Serde W α} {a : α} (hback : s.de (s.ser a) = some a)
    (hfits : (s.ser a).Fits (fun w => isNan w = false) recursionLimit) :
    (c.codec s).decode ((c.codec s).encode a) = some a := by
  have hitem := decode_encode hc.tokens hfits []
  rw [List.append_nil] at hitem
  simp [Cbor.codec, hitem, hback]

/-! ## The standard tokens -/

/-- The NaNs among the bits of a double. -/
def isNanBits (bits : UInt64) : Bool :=
  decide ((bits >>> 52) &&& 0x7FF = 0x7FF) && decide (bits &&& 0xFFFFFFFFFFFFF ≠ 0)

/-- The standard tokens; a peer id is its bytes. -/
def standardCbor : Cbor UInt64 := ⟨standard, fun b => some ⟨b⟩⟩

theorem lawful_standardCbor : standardCbor.Lawful isNanBits :=
  ⟨lawful_standard _, fun _ => rfl⟩

/-- The peer id of an ed25519 key that is `n` in every byte. -/
def ed25519Peer (n : UInt8) : PeerId :=
  ⟨[0x00, 0x24, 0x08, 0x01, 0x12, 0x20] ++ List.replicate 32 n⟩

end Parseh.Wire
