import Parseh.Miner.WireVersion
import Parseh.Shared.DeltaAuth
import Parseh.Wire.Cbor

/-!
# One encoding, one message

A signature is made over the encoding of a message with an empty signature field;
nothing in the signed bytes says which of the seven types they are.  What keeps
the types apart are the names of the fields.

* `item_injective`: the data item determines the message and its type;
* `unsigned_of_signingInput`: so do the signed bytes, but for the signature;
* `wire_separated`: messages are read back, signed bytes are never shared, and a
  signature made over one message does not pass on another.
-/

namespace Parseh.Miner

open Parseh.Lib Parseh.Lib.Cbor Parseh.Wire Parseh.Shared

variable {W : Type}

/-- A signed message of any of the seven types. -/
inductive Envelope (W : Type)
  | message (m : SignedMessage W)
  | delta (d : StateDelta W)
  deriving DecidableEq

inductive EnvelopeKind
  | spec | result | verification | outcome | syncRequest | syncResponse | delta
  deriving DecidableEq

/-- The fields of a type, in the order of the source. -/
def EnvelopeKind.fieldNames : EnvelopeKind → List String
  | .spec => ["wire_version", "kind", "inputs", "service", "sensitive", "submitted_at", "submitter",
      "signature"]
  | .result => ["wire_version", "spec_hash", "executor", "executed_at", "result_meta",
      "result_payload", "signature"]
  | .verification => ["wire_version", "result_hash", "verifier", "verdict", "method_used",
      "verified_at", "signature"]
  | .outcome => ["wire_version", "spec_hash", "result_hash", "verification_hashes", "verdict",
      "finalised_at", "observed_by", "signature"]
  | .syncRequest => ["wire_version", "since_unix", "max_outcomes", "requester", "signed_at",
      "signature"]
  | .syncResponse => ["wire_version", "outcomes", "truncated", "responder", "signed_at", "signature"]
  | .delta => ["wire_version", "kind", "observer", "observed_at", "signature"]

theorem EnvelopeKind.fieldNames_injective : Function.Injective fieldNames := by
  intro k k' h
  cases k <;> cases k' <;> first | rfl | exact absurd h (by decide)

namespace Envelope

def kind : Envelope W → EnvelopeKind
  | .message (.spec _) => .spec
  | .message (.result _) => .result
  | .message (.verification _) => .verification
  | .message (.outcome _) => .outcome
  | .message (.syncRequest _) => .syncRequest
  | .message (.syncResponse _) => .syncResponse
  | .delta _ => .delta

def signature : Envelope W → Bytes
  | .message m => m.signature
  | .delta d => d.signature

/-- The message with an empty signature field. -/
def unsigned : Envelope W → Envelope W
  | .message (.spec s) => .message (.spec { s with signature := [] })
  | .message (.result r) => .message (.result { r with signature := [] })
  | .message (.verification v) => .message (.verification { v with signature := [] })
  | .message (.outcome o) => .message (.outcome { o with signature := [] })
  | .message (.syncRequest q) => .message (.syncRequest { q with signature := [] })
  | .message (.syncResponse r) => .message (.syncResponse { r with signature := [] })
  | .delta d => .delta { d with signature := [] }

/-- The bytes a signature is made over. -/
def signingInput (x : Externals W) : Envelope W → Bytes
  | .message m => m.signingInput x
  | .delta d => x.deltaCbor.encode { d with signature := [] }

/-- `verify_signature` or `verify_delta` passes. -/
def Verifies (x : Externals W) (key : VerifyingKey) : Envelope W → Prop
  | .message m => m.verifySignature x key = .ok ()
  | .delta d => verifyDelta x d key = .ok ()

/-- Decoding the encoding gives the message back. -/
def RoundTrips (x : Externals W) : Envelope W → Prop
  | .message (.spec s) => x.specCbor.decode (x.specCbor.encode s) = some s
  | .message (.result r) => x.resultCbor.decode (x.resultCbor.encode r) = some r
  | .message (.verification v) => x.verificationCbor.decode (x.verificationCbor.encode v) = some v
  | .message (.outcome o) => x.outcomeCbor.decode (x.outcomeCbor.encode o) = some o
  | .message (.syncRequest q) => x.syncRequestCbor.decode (x.syncRequestCbor.encode q) = some q
  | .message (.syncResponse r) => x.syncResponseCbor.decode (x.syncResponseCbor.encode r) = some r
  | .delta d => x.deltaCbor.decode (x.deltaCbor.encode d) = some d

/-- No reputation weight in the message is a NaN. -/
def NonNan (isNan : W → Bool) : Envelope W → Prop
  | .message (.outcome o) => o.NonNan isNan
  | .message (.syncResponse r) => r.NonNan isNan
  | .delta d => d.NonNan isNan
  | _ => True

/-- The data item of a message. -/
def item (c : Wire.Cbor W) : Envelope W → Item W
  | .message (.spec s) => (JobSpec.serde c).ser s
  | .message (.result r) => (JobResult.serde c).ser r
  | .message (.verification v) => (JobVerification.serde c).ser v
  | .message (.outcome o) => (JobOutcome.serde c).ser o
  | .message (.syncRequest q) => (StateSyncRequest.serde c).ser q
  | .message (.syncResponse r) => (StateSyncResponse.serde c).ser r
  | .delta d => (StateDelta.serde c).ser d

/-- The message of a type that an item is read as. -/
def ofItem (c : Wire.Cbor W) (k : EnvelopeKind) (i : Item W) : Option (Envelope W) :=
  match k with
  | .spec => ((JobSpec.serde c).de i).map fun s => .message (.spec s)
  | .result => ((JobResult.serde c).de i).map fun r => .message (.result r)
  | .verification => ((JobVerification.serde c).de i).map fun v => .message (.verification v)
  | .outcome => ((JobOutcome.serde c).de i).map fun o => .message (.outcome o)
  | .syncRequest => ((StateSyncRequest.serde c).de i).map fun q => .message (.syncRequest q)
  | .syncResponse => ((StateSyncResponse.serde c).de i).map fun r => .message (.syncResponse r)
  | .delta => ((StateDelta.serde c).de i).map .delta

/-! ## The item of a message -/

section

variable {c : Wire.Cbor W} {isNan : W → Bool}

/-- The item names the fields of the type. -/
theorem names_item (e : Envelope W) :
    (e.item c).fields?.map (List.map Prod.fst) = some e.kind.fieldNames := by
  -- every item is a record, and its fields are listed in the order of the type
  have names : ∀ fields : List (String × Item W),
      (record fields).fields?.map (List.map Prod.fst) = some (fields.map Prod.fst) := by
    intro fields
    rw [fields?_record]
    rfl
  rcases e with (_ | _ | _ | _ | _ | _) | _ <;> exact names _

/-- Two messages with one item have one type. -/
theorem kind_of_item {e e' : Envelope W} (h : e.item c = e'.item c) : e.kind = e'.kind := by
  have hnames := names_item (c := c) e
  rw [h, names_item e'] at hnames
  exact (EnvelopeKind.fieldNames_injective (Option.some.inj hnames)).symm

/-- A message is read back at its type. -/
theorem ofItem_item (hc : c.Lawful isNan) (e : Envelope W) :
    ofItem c e.kind (e.item c) = some e := by
  cases e with
  | delta d => simp [ofItem, item, kind, de_ser_stateDelta hc]
  | message m =>
    cases m with
    | spec s => simp [ofItem, item, kind, de_ser_jobSpec hc]
    | result r => simp [ofItem, item, kind, de_ser_jobResult hc]
    | verification v => simp [ofItem, item, kind, de_ser_jobVerification hc]
    | outcome o => simp [ofItem, item, kind, de_ser_jobOutcome hc]
    | syncRequest q => simp [ofItem, item, kind, de_ser_stateSyncRequest hc]
    | syncResponse r => simp [ofItem, item, kind, de_ser_stateSyncResponse hc]

/-- The item determines the message. -/
theorem item_injective (hc : c.Lawful isNan) {e e' : Envelope W} (h : e.item c = e'.item c) :
    e = e' := by
  have hread := ofItem_item hc e
  rw [kind_of_item h, h, ofItem_item hc e'] at hread
  exact (Option.some.inj hread).symm

theorem fits_item {e : Envelope W} (h : e.NonNan isNan) :
    (e.item c).Fits (fun w => isNan w = false) recursionLimit := by
  have hle : 6 ≤ recursionLimit := by decide
  cases e with
  | delta d => exact (fits_ser_stateDelta h).mono hle
  | message m =>
    cases m with
    | spec s => exact (fits_ser_jobSpec s).mono hle
    | result r => exact (fits_ser_jobResult r).mono hle
    | verification v => exact (fits_ser_jobVerification v).mono hle
    | outcome o => exact (fits_ser_jobOutcome h).mono hle
    | syncRequest q => exact (fits_ser_stateSyncRequest q).mono hle
    | syncResponse r => exact (fits_ser_stateSyncResponse h).mono hle

/-! ## The signed bytes -/

variable {x : Externals W}

theorem signingInput_withCbor (e : Envelope W) :
    e.signingInput (x.withCbor c) = encode c.tokens (e.unsigned.item c) := by
  rcases e with (_ | _ | _ | _ | _ | _) | _ <;> rfl

theorem NonNan.unsigned {e : Envelope W} (h : e.NonNan isNan) : e.unsigned.NonNan isNan := by
  rcases e with (_ | _ | _ | _ | _ | _) | _ <;> exact h

/-- The signed bytes determine the message but for its signature. -/
theorem unsigned_of_signingInput (hc : c.Lawful isNan) {e e' : Envelope W} (h : e.NonNan isNan)
    (h' : e'.NonNan isNan)
    (heq : e.signingInput (x.withCbor c) = e'.signingInput (x.withCbor c)) :
    e.unsigned = e'.unsigned := by
  rw [signingInput_withCbor, signingInput_withCbor] at heq
  exact item_injective hc
    (encode_injective hc.tokens (fits_item h.unsigned) (fits_item h'.unsigned) heq)

theorem roundTrips (hc : c.Lawful isNan) {e : Envelope W} (h : e.NonNan isNan) :
    e.RoundTrips (x.withCbor c) := by
  have hfits := fits_item (c := c) h
  cases e with
  | delta d => exact decode_codec hc (de_ser_stateDelta hc d) hfits
  | message m =>
    cases m with
    | spec s => exact decode_codec hc (de_ser_jobSpec hc s) hfits
    | result r => exact decode_codec hc (de_ser_jobResult hc r) hfits
    | verification v => exact decode_codec hc (de_ser_jobVerification hc v) hfits
    | outcome o => exact decode_codec hc (de_ser_jobOutcome hc o) hfits
    | syncRequest q => exact decode_codec hc (de_ser_stateSyncRequest hc q) hfits
    | syncResponse r => exact decode_codec hc (de_ser_stateSyncResponse hc r) hfits

theorem kind_unsigned (e : Envelope W) : e.unsigned.kind = e.kind := by
  rcases e with (_ | _ | _ | _ | _ | _) | _ <;> rfl

/-- What passes the check has a signature that verifies over the signed bytes. -/
theorem verify_of_verifies {key : VerifyingKey} {e : Envelope W} (h : e.Verifies x key) :
    x.verify key (e.signingInput x) e.signature = .ok () := by
  cases e with
  | message m => exact ((SignedMessage.verifySignature_eq_ok_iff x key m).mp h).1.2
  | delta d => exact ((verifyDelta_eq_ok_iff x d key).mp h).signed

end

/-- ed25519 accepts the signature made over `b'` for `b` only if they are the same. -/
def Binds (x : Externals W) (secret : SigningKey) (key : VerifyingKey) (b b' : Bytes) : Prop :=
  x.verify key b (x.sign secret b') = .ok () → b = b'

/-- The wire format keeps messages apart: they are read back, the signed bytes
determine the type and every field but the signature, and a signature made over one
message passes on a message of that type and content only, as far as ed25519 binds it
to the bytes it was made over. -/
theorem wire_separated {c : Wire.Cbor W} {isNan : W → Bool} (hc : c.Lawful isNan)
    (x : Externals W) :
    (∀ e : Envelope W, e.NonNan isNan → e.RoundTrips (x.withCbor c)) ∧
    (∀ e e' : Envelope W, e.NonNan isNan → e'.NonNan isNan →
      e.signingInput (x.withCbor c) = e'.signingInput (x.withCbor c) → e.unsigned = e'.unsigned) ∧
    (∀ e e' : Envelope W, e.NonNan isNan → e'.NonNan isNan → e.kind ≠ e'.kind →
      e.signingInput (x.withCbor c) ≠ e'.signingInput (x.withCbor c)) ∧
    ∀ (e e' : Envelope W) (key : VerifyingKey) (secret : SigningKey), e.NonNan isNan →
      e'.NonNan isNan →
      Binds x secret key (e.signingInput (x.withCbor c)) (e'.signingInput (x.withCbor c)) →
      e.signature = x.sign secret (e'.signingInput (x.withCbor c)) →
      e.Verifies (x.withCbor c) key → e.unsigned = e'.unsigned := by
  refine ⟨fun e h => roundTrips hc h, fun e e' h h' => unsigned_of_signingInput hc h h',
    fun e e' h h' hk heq => ?_, fun e e' key secret h h' hbinds hsig hverifies => ?_⟩
  · have hun := unsigned_of_signingInput hc h h' heq
    rw [← kind_unsigned e, hun, kind_unsigned e'] at hk
    exact hk rfl
  · have hv := verify_of_verifies hverifies
    rw [hsig] at hv
    exact unsigned_of_signingInput hc h h' (hbinds hv)

/-- An outcome with the weight 0.6, and a request of its observer. -/
def weightedOutcome : Envelope UInt64 :=
  .message (.outcome
    { wireVersion := wireVersion, specHash := hashOf 1, resultHash := hashOf 2,
      verificationHashes := [hashOf 3], verdict := .valid 3 2 0 0x3FE3333333333333,
      finalisedAt := 100, observedBy := ed25519Peer 9, signature := List.replicate 64 7 })

def plainRequest : Envelope UInt64 :=
  .message (.syncRequest
    { wireVersion := wireVersion, sinceUnix := 0, maxOutcomes := 500, requester := ed25519Peer 9,
      signedAt := 100, signature := [] })

/-- The outcome is read back, and its signature is not made over the request. -/
theorem weightedOutcome_separated :
    weightedOutcome.RoundTrips ((Externals.ofTables [] [] [] []).withCbor standardCbor) ∧
      weightedOutcome.signingInput ((Externals.ofTables [] [] [] []).withCbor standardCbor) ≠
        plainRequest.signingInput ((Externals.ofTables [] [] [] []).withCbor standardCbor) := by
  have hnan : weightedOutcome.NonNan isNanBits := by
    show isNanBits 0x3FE3333333333333 = false
    decide
  obtain ⟨hround, -, hkinds, -⟩ :=
    wire_separated lawful_standardCbor (Externals.ofTables [] [] [] [])
  exact ⟨hround _ hnan, hkinds _ _ hnan trivial (by decide)⟩

end Envelope

end Parseh.Miner
