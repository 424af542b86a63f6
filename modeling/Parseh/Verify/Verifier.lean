import Parseh.Verify.Quorum
import Parseh.Verify.RateLimit
import Parseh.Wire.Table

/-!
# The verifier of a node (`parseh-verify`, `selection.rs`, `methods.rs`, `verifier.rs`)

`decide_to_verify` asks five questions before a node re-executes a task; the
method then compares, and `verify_task` signs what it says.  A method is any
function of the spec and the result, and a local executor any function of the spec.

* `decideToVerify_eq_verify_iff`: everything that has to hold before a node verifies;
* `verifyTask_cases`: everything `verify_task` can return;
* `verifyTask_gate`: what a signed verification stands for;
* `verdict_about_spec_iff`: nothing ties it to the spec of the result.
-/

namespace Parseh.Verify

open Parseh.Lib Parseh.Wire

variable {W : Type}

/-! ## Selection -/

def probationaryRepFloor : UInt32 := 10

/-- The literals `0.05`, `0.001` and `0.5`. -/
def pBase [WeightArith W] : W := WeightArith.ratio 5 100
def pMin [WeightArith W] : W := WeightArith.ratio 1 1000
def pMax [WeightArith W] : W := WeightArith.ratio 5 10

structure SelectionConfig (W : Type) where
  localPeerId : PeerId
  localReputation : UInt32
  networkAvgReputation : UInt32
  rateLimit : RateLimit W
  alreadyVerifiedThisTask : Bool

inductive SkipReason
  | belowProbationary | rateLimited | randomNotChosen | ownTask | alreadyVerified
  deriving DecidableEq

inductive SelectionDecision
  | verify
  | skip (reason : SkipReason)
  deriving DecidableEq

/-- `f64::clamp`. -/
def clamp [FloatArith W] (a lo hi : W) : W :=
  let a := if FloatArith.lt a lo then lo else a
  if FloatArith.lt hi a then hi else a

/-- `u64::from_le_bytes`, before it is cut to 64 bits. -/
def fromLeBytes (b : Bytes) : Nat := b.foldr (fun byte n => byte.toNat + 256 * n) 0

/-- `roll_from_seed`: the first eight bytes of a digest, as a fraction of `2^64`. -/
def rollFromSeed [WeightArith W] (x : Externals W) (seed : UInt64) (localPeerId : PeerId) : W :=
  let digest := x.sha256 (u64LeBytes seed ++ localPeerId.toBytes)
  WeightArith.ratio (fromLeBytes (digest.bytes.take 8)) (2 ^ 64)

/-- The probability the node verifies with. -/
def SelectionConfig.pNode [FloatArith W] (cfg : SelectionConfig W) : W :=
  let repRatio := WeightArith.ratio cfg.localReputation.toNat (max cfg.networkAvgReputation.toNat 1)
  clamp (FloatArith.mul pBase repRatio) pMin pMax

/-- `decide_to_verify`; `now` is what the clock says when the rate limit is read. -/
def decideToVerify [FloatArith W] (x : Externals W) (cfg : SelectionConfig W) (now : SystemTime)
    (task : JobSpec) (result : JobResult) (seed : UInt64) : SelectionDecision :=
  if task.submitter = cfg.localPeerId then .skip .ownTask
  else if result.executor = cfg.localPeerId then .skip .ownTask
  else if cfg.alreadyVerifiedThisTask then .skip .alreadyVerified
  else if cfg.localReputation < probationaryRepFloor then .skip .belowProbationary
  else if cfg.rateLimit.exceededAt now then .skip .rateLimited
  else if FloatArith.lt (rollFromSeed x seed cfg.localPeerId) cfg.pNode then .verify
  else .skip .randomNotChosen

/-- What a node that verifies has passed. -/
structure Selected [FloatArith W] (x : Externals W) (cfg : SelectionConfig W) (now : SystemTime)
    (task : JobSpec) (result : JobResult) (seed : UInt64) : Prop where
  notSubmitter : cfg.localPeerId ≠ task.submitter
  notExecutor : cfg.localPeerId ≠ result.executor
  notVerified : cfg.alreadyVerifiedThisTask = false
  established : probationaryRepFloor ≤ cfg.localReputation
  notExceeded : cfg.rateLimit.exceededAt now = false
  rolled : FloatArith.lt (rollFromSeed x seed cfg.localPeerId) cfg.pNode = true

theorem decideToVerify_eq_verify_iff [FloatArith W] {x : Externals W} {cfg : SelectionConfig W}
    {now : SystemTime} {task : JobSpec} {result : JobResult} {seed : UInt64} :
    decideToVerify x cfg now task result seed = .verify ↔
      Selected x cfg now task result seed := by
  unfold decideToVerify
  constructor
  · intro h
    split at h
    · cases h
    · next hsub =>
      split at h
      · cases h
      · next hexe =>
        split at h
        · cases h
        · next hver =>
          split at h
          · cases h
          · next hrep =>
            split at h
            · cases h
            · next hcap =>
              split at h
              · next hroll =>
                exact ⟨Ne.symm hsub, Ne.symm hexe, by simpa using hver, UInt32.not_lt.mp hrep,
                  by simpa using hcap, hroll⟩
              · cases h
  · intro h
    rw [if_neg h.notSubmitter.symm, if_neg h.notExecutor.symm, h.notVerified,
      if_neg (by simp), if_neg (UInt32.not_lt.mpr h.established), h.notExceeded,
      if_neg (by simp), if_pos h.rolled]

/-! ## Methods -/

structure VerificationOutcome where
  matched : Bool
  evidenceHash : Option ContentHash
  deriving DecidableEq

/-- `VerifierMethodImpl::verify`. -/
abbrev VerifierMethodImpl := JobSpec → JobResult → Except VerifyError VerificationOutcome

/-- `LocalExecutor::execute`. -/
abbrev LocalExecutor := JobSpec → Except VerifyError Bytes

/-- The spec asks for an inference without a seed. -/
def seedMissing (spec : JobSpec) : Prop := spec.kind = .inference ∧ spec.inputs.seed = none

instance (spec : JobSpec) : Decidable (seedMissing spec) := by
  unfold seedMissing
  infer_instance

/-- `DeterministicMethod::verify`: re-execute and compare the bytes. -/
def deterministicMethod (x : Externals W) (executor : LocalExecutor) : VerifierMethodImpl :=
  fun spec result =>
    if seedMissing spec then .error .seedMissing
    else do
      let localPayload ← executor spec
      if localPayload = result.resultPayload then .ok ⟨true, none⟩
      else .ok ⟨false, some (contentHash x localPayload)⟩

/-- `SpotCheckMethod` and `StatisticalMethod`, the stubs. -/
def spotCheckMethod : VerifierMethodImpl := fun _ _ => .error .methodNotImplementedInV02
def statisticalMethod : VerifierMethodImpl := fun _ _ => .error .methodNotImplementedInV02

/-! ## The pipeline -/

/-- The three errors that are answered with an abstention. -/
def VerifyError.abstains : VerifyError → Bool
  | .methodNotImplementedInV02 | .seedMissing | .modelUnavailable _ => true
  | .execution _ | .internal _ => false

inductive VerifyOutcome
  | agreed (v : JobVerification)
  | disagreed (v : JobVerification)
  | abstained (v : JobVerification)
  | skipped (reason : SkipReason)
  deriving DecidableEq

/-- The signed object of an outcome, if it has one. -/
def VerifyOutcome.signed : VerifyOutcome → Option JobVerification
  | .agreed v | .disagreed v | .abstained v => some v
  | .skipped _ => none

structure Verifier (W : Type) where
  localPeerId : PeerId
  localSigningKey : SigningKey
  selectionConfig : SelectionConfig W

namespace Verifier

/-- Sign a verdict on the result with the local key. -/
def sign (x : Externals W) (v : Verifier W) (signedAt : SystemTime) (result : JobResult)
    (verdict : VerifierVerdict) : JobVerification :=
  (JobVerification.newSignedAt x (result.contentHash x) v.localPeerId verdict .deterministic
    (unixNow signedAt) v.localSigningKey).1

/-- `verify_task`; the clock says `selectedAt` when the node is selected and `signedAt`
when it signs. -/
def verifyTask [FloatArith W] (x : Externals W) (v : Verifier W) (selectedAt signedAt : SystemTime)
    (spec : JobSpec) (result : JobResult) (method : VerifierMethodImpl) (seed : UInt64) :
    VerifyOutcome :=
  match decideToVerify x v.selectionConfig selectedAt spec result seed with
  | .skip reason => .skipped reason
  | .verify =>
    match method spec result with
    | .error .methodNotImplementedInV02 | .error .seedMissing | .error (.modelUnavailable _) =>
      .abstained (v.sign x signedAt result .abstained)
    | .error _ => .skipped .randomNotChosen
    | .ok outcome =>
      if outcome.matched then .agreed (v.sign x signedAt result .agreed)
      else .disagreed (v.sign x signedAt result
        (.disagreed (outcome.evidenceHash.getD ContentHash.zero)))

section

variable [FloatArith W] (x : Externals W) (v : Verifier W) (selectedAt signedAt : SystemTime)
  (spec : JobSpec) (result : JobResult) (method : VerifierMethodImpl) (seed : UInt64)

/-- Everything `verify_task` can return. -/
theorem verifyTask_cases :
    (∃ reason, v.verifyTask x selectedAt signedAt spec result method seed = .skipped reason) ∨
    (Selected x v.selectionConfig selectedAt spec result seed ∧
      ((v.verifyTask x selectedAt signedAt spec result method seed =
          .agreed (v.sign x signedAt result .agreed)) ∨
        (∃ e, v.verifyTask x selectedAt signedAt spec result method seed =
          .disagreed (v.sign x signedAt result (.disagreed e))) ∨
        v.verifyTask x selectedAt signedAt spec result method seed =
          .abstained (v.sign x signedAt result .abstained))) := by
  unfold verifyTask
  cases hd : decideToVerify x v.selectionConfig selectedAt spec result seed with
  | skip reason => exact Or.inl ⟨reason, rfl⟩
  | verify =>
    have hsel := decideToVerify_eq_verify_iff.mp hd
    cases method spec result with
    | error e =>
      cases e with
      | methodNotImplementedInV02 => exact Or.inr ⟨hsel, Or.inr (Or.inr rfl)⟩
      | seedMissing => exact Or.inr ⟨hsel, Or.inr (Or.inr rfl)⟩
      | modelUnavailable text => exact Or.inr ⟨hsel, Or.inr (Or.inr rfl)⟩
      | execution text => exact Or.inl ⟨_, rfl⟩
      | internal text => exact Or.inl ⟨_, rfl⟩
    | ok outcome =>
      refine Or.inr ⟨hsel, ?_⟩
      cases hm : outcome.matched with
      | true => exact Or.inl (by simp [hm])
      | false => exact Or.inr (Or.inl ⟨outcome.evidenceHash.getD ContentHash.zero, by simp [hm]⟩)

/-- What a signed object is: signed by the node, about the result. -/
theorem signed_cases {u : JobVerification}
    (h : (v.verifyTask x selectedAt signedAt spec result method seed).signed = some u) :
    Selected x v.selectionConfig selectedAt spec result seed ∧
      ∃ verdict, u = v.sign x signedAt result verdict := by
  rcases verifyTask_cases x v selectedAt signedAt spec result method seed with
    ⟨reason, hr⟩ | ⟨hsel, hr | ⟨e, hr⟩ | hr⟩
  · rw [hr] at h
    cases h
  · rw [hr] at h
    exact ⟨hsel, _, (Option.some.inj h).symm⟩
  · rw [hr] at h
    exact ⟨hsel, _, (Option.some.inj h).symm⟩
  · rw [hr] at h
    exact ⟨hsel, _, (Option.some.inj h).symm⟩

/-- What is signed says what is returned. -/
theorem verdict_verifyTask (u : JobVerification) :
    (v.verifyTask x selectedAt signedAt spec result method seed = .agreed u →
      u.verdict = .agreed) ∧
    (v.verifyTask x selectedAt signedAt spec result method seed = .disagreed u →
      ∃ e, u.verdict = .disagreed e) ∧
    (v.verifyTask x selectedAt signedAt spec result method seed = .abstained u →
      u.verdict = .abstained) := by
  rcases verifyTask_cases x v selectedAt signedAt spec result method seed with
    ⟨reason, hr⟩ | ⟨-, hr | ⟨e, hr⟩ | hr⟩
  · rw [hr]
    exact ⟨nofun, nofun, nofun⟩
  · rw [hr]
    refine ⟨fun h => ?_, nofun, nofun⟩
    rw [← VerifyOutcome.agreed.inj h]
    rfl
  · rw [hr]
    refine ⟨nofun, fun h => ⟨e, ?_⟩, nofun⟩
    rw [← VerifyOutcome.disagreed.inj h]
    rfl
  · rw [hr]
    refine ⟨nofun, nofun, fun h => ?_⟩
    rw [← VerifyOutcome.abstained.inj h]
    rfl

omit [FloatArith W] in
/-- The node's own signature verifies. -/
theorem verifySignature_sign (verdict : VerifierVerdict) {key : VerifyingKey}
    (hsign : ∀ bytes, verifyBytes x key bytes (x.sign v.localSigningKey bytes) = .ok ()) :
    (v.sign x signedAt result verdict).verifySignature x key = .ok () := hsign _

/-! ## Deterministic re-execution -/

variable (executor : LocalExecutor)

/-- What the local executor returned, if the node got to run it. -/
def reexecution : Option (Except VerifyError Bytes) :=
  if decideToVerify x v.selectionConfig selectedAt spec result seed = .verify ∧ ¬ seedMissing spec
  then some (executor spec) else none

/-- The pipeline with the deterministic method, by what the executor returned. -/
theorem verifyTask_deterministic :
    v.verifyTask x selectedAt signedAt spec result (deterministicMethod x executor) seed =
      match v.reexecution x selectedAt spec result seed executor with
      | some (.ok bytes) =>
        if bytes = result.resultPayload then .agreed (v.sign x signedAt result .agreed)
        else .disagreed (v.sign x signedAt result (.disagreed (contentHash x bytes)))
      | some (.error e) =>
        if e.abstains then .abstained (v.sign x signedAt result .abstained)
        else .skipped .randomNotChosen
      | none =>
        match decideToVerify x v.selectionConfig selectedAt spec result seed with
        | .verify => .abstained (v.sign x signedAt result .abstained)
        | .skip reason => .skipped reason := by
  unfold verifyTask reexecution
  cases hd : decideToVerify x v.selectionConfig selectedAt spec result seed with
  | skip reason => simp
  | verify =>
    by_cases hseed : seedMissing spec
    · simp [deterministicMethod, hseed]
    · simp only [deterministicMethod, hseed, if_false, not_false_eq_true, and_self, if_true]
      cases executor spec with
      | error e => cases e <;> rfl
      | ok bytes =>
        by_cases heq : bytes = result.resultPayload
        · simp [bind, Except.bind, heq]
        · simp [bind, Except.bind, heq]

theorem agreed_iff_reexecution :
    (∃ u, v.verifyTask x selectedAt signedAt spec result (deterministicMethod x executor) seed =
        .agreed u) ↔
      v.reexecution x selectedAt spec result seed executor = some (.ok result.resultPayload) := by
  rw [verifyTask_deterministic]
  constructor
  · rintro ⟨u, h⟩
    split at h
    · next bytes hr =>
      split at h
      · next heq => rw [hr, heq]
      · cases h
    · split at h <;> cases h
    · split at h <;> cases h
  · intro h
    rw [h]
    exact ⟨_, if_pos rfl⟩

theorem disagreed_iff_reexecution (e : ContentHash) :
    (∃ u, v.verifyTask x selectedAt signedAt spec result (deterministicMethod x executor) seed =
        .disagreed u ∧ u.verdict = .disagreed e) ↔
      ∃ bytes, v.reexecution x selectedAt spec result seed executor = some (.ok bytes) ∧
        bytes ≠ result.resultPayload ∧ contentHash x bytes = e := by
  rw [verifyTask_deterministic]
  constructor
  · rintro ⟨u, h, hverdict⟩
    split at h
    · next bytes hr =>
      split at h
      · cases h
      · next hne =>
        obtain rfl := VerifyOutcome.disagreed.inj h
        exact ⟨bytes, hr, hne, VerifierVerdict.disagreed.inj hverdict⟩
    · split at h <;> cases h
    · split at h <;> cases h
  · rintro ⟨bytes, hr, hne, rfl⟩
    rw [hr]
    exact ⟨_, if_neg hne, rfl⟩

/-- For a verifier that is selected under its own name, and whatever method it is given:
what it signs, and when. -/
theorem verifyTask_gate (hlocal : v.selectionConfig.localPeerId = v.localPeerId)
    (key : VerifyingKey)
    (hsign : ∀ bytes, verifyBytes x key bytes (x.sign v.localSigningKey bytes) = .ok ()) :
    (∀ method u, (v.verifyTask x selectedAt signedAt spec result method seed).signed = some u →
      (v.localPeerId ≠ spec.submitter ∧ v.localPeerId ≠ result.executor ∧
        v.selectionConfig.alreadyVerifiedThisTask = false ∧
        probationaryRepFloor ≤ v.selectionConfig.localReputation ∧
        v.selectionConfig.rateLimit.exceededAt selectedAt = false ∧
        FloatArith.lt (rollFromSeed x seed v.localPeerId) v.selectionConfig.pNode = true) ∧
      u.resultHash = result.contentHash x ∧ u.verifier = v.localPeerId ∧
      u.verifySignature x key = .ok ()) ∧
    (∀ method u,
      (v.verifyTask x selectedAt signedAt spec result method seed = .agreed u →
        u.verdict = .agreed) ∧
      (v.verifyTask x selectedAt signedAt spec result method seed = .disagreed u →
        ∃ e, u.verdict = .disagreed e) ∧
      (v.verifyTask x selectedAt signedAt spec result method seed = .abstained u →
        u.verdict = .abstained)) ∧
    ∀ executor,
      ((∃ u, v.verifyTask x selectedAt signedAt spec result (deterministicMethod x executor) seed =
          .agreed u) ↔
        v.reexecution x selectedAt spec result seed executor = some (.ok result.resultPayload)) ∧
      (∀ e, (∃ u, v.verifyTask x selectedAt signedAt spec result (deterministicMethod x executor)
          seed = .disagreed u ∧ u.verdict = .disagreed e) ↔
        ∃ bytes, v.reexecution x selectedAt spec result seed executor = some (.ok bytes) ∧
          bytes ≠ result.resultPayload ∧ contentHash x bytes = e) ∧
      (∀ e, v.reexecution x selectedAt spec result seed executor = some (.error e) →
        e.abstains = false →
        (v.verifyTask x selectedAt signedAt spec result (deterministicMethod x executor)
          seed).signed = none) := by
  refine ⟨fun method u hu => ?_, fun method u =>
    verdict_verifyTask x v selectedAt signedAt spec result method seed u, fun executor => ⟨?_, ?_, ?_⟩⟩
  · obtain ⟨hsel, verdict, rfl⟩ := signed_cases x v selectedAt signedAt spec result method seed hu
    have hroll := hsel.rolled
    rw [hlocal] at hroll
    exact ⟨⟨hlocal ▸ hsel.notSubmitter, hlocal ▸ hsel.notExecutor, hsel.notVerified,
      hsel.established, hsel.notExceeded, hroll⟩, rfl, rfl,
      verifySignature_sign x v signedAt result verdict hsign⟩
  · exact agreed_iff_reexecution x v selectedAt signedAt spec result seed executor
  · exact disagreed_iff_reexecution x v selectedAt signedAt spec result seed executor
  · intro e hr he
    rw [verifyTask_deterministic, hr]
    simp [he, VerifyOutcome.signed]

theorem reexecution_eq_ok_iff (bytes : Bytes) :
    v.reexecution x selectedAt spec result seed executor = some (.ok bytes) ↔
      decideToVerify x v.selectionConfig selectedAt spec result seed = .verify ∧
        ¬ seedMissing spec ∧ executor spec = .ok bytes := by
  unfold reexecution
  split
  · next h => simp [h]
  · next h =>
    refine iff_of_false nofun fun hall => h ⟨hall.1, hall.2.1⟩

/-- A verdict is formed exactly when there are bytes to compare. -/
theorem verdict_iff_bytes :
    (∃ u, v.verifyTask x selectedAt signedAt spec result (deterministicMethod x executor) seed =
        .agreed u ∨
      v.verifyTask x selectedAt signedAt spec result (deterministicMethod x executor) seed =
        .disagreed u) ↔
      ∃ bytes, v.reexecution x selectedAt spec result seed executor = some (.ok bytes) := by
  rw [exists_or, agreed_iff_reexecution]
  constructor
  · rintro (h | ⟨u, hu⟩)
    · exact ⟨_, h⟩
    · rw [verifyTask_deterministic] at hu
      split at hu
      · next bytes hr => exact ⟨bytes, hr⟩
      · split at hu <;> cases hu
      · split at hu <;> cases hu
  · rintro ⟨bytes, hr⟩
    by_cases heq : bytes = result.resultPayload
    · exact Or.inl (heq ▸ hr)
    · obtain ⟨u, hu, -⟩ := (disagreed_iff_reexecution x v selectedAt signedAt spec result seed
        executor (contentHash x bytes)).mpr ⟨bytes, hr, heq, rfl⟩
      exact Or.inr ⟨u, hu⟩

/-- A verdict is only formed on the spec that the result names if and only if the result
does name the spec, or no bytes are compared: the node is not selected, the seed is
missing, or the executor fails. -/
theorem verdict_about_spec_iff :
    ((∃ u, v.verifyTask x selectedAt signedAt spec result (deterministicMethod x executor) seed =
          .agreed u ∨
        v.verifyTask x selectedAt signedAt spec result (deterministicMethod x executor) seed =
          .disagreed u) → result.specHash = spec.contentHash x) ↔
      result.specHash = spec.contentHash x ∨
        decideToVerify x v.selectionConfig selectedAt spec result seed ≠ .verify ∨
        seedMissing spec ∨ ∃ e, executor spec = .error e := by
  rw [verdict_iff_bytes]
  simp only [reexecution_eq_ok_iff]
  constructor
  · intro h
    by_cases hname : result.specHash = spec.contentHash x
    · exact Or.inl hname
    · refine Or.inr ?_
      by_contra hno
      push Not at hno
      obtain ⟨hsel, hseed, hexec⟩ := hno
      cases hr : executor spec with
      | error e => exact hexec e hr
      | ok bytes => exact hname (h ⟨bytes, hsel, hseed, hr⟩)
  · rintro (hname | hsel | hseed | ⟨e, he⟩) ⟨bytes, hsel', hseed', hr⟩
    · exact hname
    · exact absurd hsel' hsel
    · exact absurd hseed hseed'
    · rw [he] at hr
      cases hr

end

/-! ## One verifier, two specs -/

/-- Both small specs and the result of the first. -/
def twoSpecs : Externals ℚ :=
  Externals.ofTables [(specBytes false, smallSpec false), (specBytes true, smallSpec true)]
    [(resultBytes false, smallResult false)] [] []

/-- Peer 9, well above the floor, has verified nothing yet.  The seed 2 selects it, with
these externals and with SHA-256. -/
def smallVerifier : Verifier ℚ :=
  ⟨peerOf 9, keyOf 9, ⟨peerOf 9, 100, 50, .v02Defaults, false⟩⟩

/-- The result of the first spec, held against the second one, is attested. -/
theorem other_spec_attested :
    smallVerifier.verifyTask twoSpecs 0 0 (smallSpec true) (smallResult false)
        (deterministicMethod twoSpecs fun _ => .ok []) 2 =
      .agreed (smallVerifier.sign twoSpecs 0 (smallResult false) .agreed) ∧
    (smallResult false).specHash ≠ (smallSpec true).contentHash twoSpecs := by
  decide +kernel

theorem verifyBytes_twoSpecs (bytes : Bytes) :
    verifyBytes twoSpecs (keyOf 9).verifyingKey bytes
      (twoSpecs.sign smallVerifier.localSigningKey bytes) = .ok () := by
  simp [verifyBytes, twoSpecs, Externals.ofTables, smallVerifier, SigningKey.verifyingKey, keyOf,
    Array32.replicate]

/-- The verification of the first spec passes every gate. -/
theorem small_verification_gated :
    (smallVerifier.sign twoSpecs 0 (smallResult false) .agreed).verifySignature twoSpecs
        (keyOf 9).verifyingKey = .ok () ∧
      smallVerifier.localPeerId ≠ (smallSpec false).submitter := by
  have hgate := verifyTask_gate twoSpecs smallVerifier 0 0 (smallSpec false) (smallResult false) 2
    rfl (keyOf 9).verifyingKey verifyBytes_twoSpecs
  obtain ⟨⟨hsub, -⟩, -, -, hsig⟩ := hgate.1 (deterministicMethod twoSpecs fun _ => .ok [])
    (smallVerifier.sign twoSpecs 0 (smallResult false) .agreed) (by decide +kernel)
  exact ⟨hsig, hsub⟩

end Verifier

end Parseh.Verify
