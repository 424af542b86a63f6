import Parseh.Shared.Replay

/-!
# Who vouches for the outcome inside a delta

An outcome delta carries two signatures: the envelope's and the outcome's own.
The documentation of `verify_delta` and of `apply_delta` promises that both are
checked under the key of the call.  The code checks the envelope only, so an
outcome with any inner signature is recorded once somebody has signed an
envelope around it.

* `verifyDelta_eq_ok_iff`: what `verify_delta` does check;
* `receive_row_origin`: a new outcome row is the outcome of a delta with a valid
  envelope;
* `deltaAuthenticated_iff`: the promise holds in exactly the runs without an
  outcome that a valid envelope carries under an invalid inner signature.
-/

namespace Parseh.Shared

open Parseh.Lib Parseh.Wire

variable {W : Type}

/-- The three checks on the envelope pass. -/
structure EnvelopeSigned (x : Externals W) (d : StateDelta W) (key : VerifyingKey) : Prop where
  version : d.wireVersion = deltaWireVersion
  length : d.signature.length = 64
  signed : x.verify key (x.deltaCbor.encode { d with signature := [] }) d.signature = .ok ()

theorem verifyDelta_eq_ok_iff (x : Externals W) (d : StateDelta W) (key : VerifyingKey) :
    verifyDelta x d key = .ok () ↔ EnvelopeSigned x d key := by
  unfold verifyDelta
  split
  · next hv => exact ⟨fun h => (nomatch h), fun h => absurd h.version hv⟩
  · next hv =>
    split
    · next hl => exact ⟨fun h => (nomatch h), fun h => absurd h.length hl⟩
    · next hl =>
      split
      · next hs => exact ⟨fun _ => ⟨not_not.mp hv, not_not.mp hl, hs⟩, fun _ => rfl⟩
      · next hs =>
        refine ⟨fun h => (nomatch h), fun h => ?_⟩
        rw [h.signed] at hs
        cases hs

namespace SharedState

/-- What the documentation promises of one delivery. -/
structure DeltaAuthenticated (x : Externals W) (s : SharedState) (d : Delivery W) : Prop where
  /-- A verified delta carries an outcome with a valid signature of its own. -/
  verified : verifyDelta x d.delta d.signerPubkey = .ok () → ∀ o, d.delta.kind = .outcome o →
    o.verifySignature x d.signerPubkey = .ok ()
  /-- A row it inserts is that of an outcome signed under the key of the call. -/
  inserted : ∀ r ∈ (s.receive x d).outcomes.rows, r ∉ s.outcomes.rows →
    ∃ o, r = outcomeRow x o d.now ∧ o.verifySignature x d.signerPubkey = .ok ()
  /-- An invalid inner signature is an error and leaves the store. -/
  rejected : ∀ o, d.delta.kind = .outcome o → o.verifySignature x d.signerPubkey ≠ .ok () →
    (∃ e, s.applyDelta x d.delta d.signerPubkey d.now = .error e) ∧ s.receive x d = s

/-- The outcome a delta carries, if any, has a valid signature of its own, or the
envelope around it has none. -/
def InnerSigned (x : Externals W) (d : Delivery W) : Prop :=
  ∀ o, d.delta.kind = .outcome o → EnvelopeSigned x d.delta d.signerPubkey →
    o.verifySignature x d.signerPubkey = .ok ()

/-- A new outcome row comes out of a delta with a valid envelope. -/
theorem receive_row_origin {x : Externals W} {s : SharedState} {d : Delivery W} {r : OutcomeRow}
    (hr : r ∈ (s.receive x d).outcomes.rows) (hnew : r ∉ s.outcomes.rows) :
    ∃ o, d.delta.kind = .outcome o ∧ verifyDelta x d.delta d.signerPubkey = .ok () ∧
      r = outcomeRow x o d.now := by
  rw [receive_outcomes, Keyed.mem_insertAll] at hr
  rcases hr with hold | ⟨-, hfind⟩
  · exact absurd hold hnew
  · have hmem := List.mem_of_find?_eq_some hfind
    simp only [Call.acceptedOutcomes, Delivery.call, Call.offeredOutcome] at hmem
    cases hv : verifyDelta x d.delta d.signerPubkey with
    | error e => simp [hv] at hmem
    | ok u =>
      cases hk : d.delta.kind with
      | outcome o =>
        simp only [hv, hk] at hmem
        split at hmem
        · exact ⟨o, rfl, rfl, List.mem_singleton.mp hmem⟩
        · cases hmem
      | _ => simp [hv, hk] at hmem

theorem applyDelta_of_unsigned {x : Externals W} {d : StateDelta W} {key : VerifyingKey}
    (h : ¬ EnvelopeSigned x d key) (s : SharedState) (now : Int64) :
    ∃ e, s.applyDelta x d key now = .error e := by
  unfold applyDelta
  cases hv : verifyDelta x d key with
  | error e => exact ⟨_, rfl⟩
  | ok u => exact absurd ((verifyDelta_eq_ok_iff x d key).mp hv) h

/-- One delivery keeps the promise exactly when its outcome is signed inside. -/
theorem deltaAuthenticated_step (x : Externals W) (s : SharedState) (d : Delivery W) :
    DeltaAuthenticated x s d ↔ InnerSigned x d := by
  constructor
  · intro h o ho henv
    exact h.verified ((verifyDelta_eq_ok_iff x _ _).mpr henv) o ho
  · intro h
    refine ⟨fun hv o ho => h o ho ((verifyDelta_eq_ok_iff x _ _).mp hv), ?_, ?_⟩
    · intro r hr hnew
      obtain ⟨o, ho, hv, rfl⟩ := receive_row_origin hr hnew
      exact ⟨o, rfl, h o ho ((verifyDelta_eq_ok_iff x _ _).mp hv)⟩
    · intro o ho hinner
      have henv : ¬ EnvelopeSigned x d.delta d.signerPubkey := fun henv => hinner (h o ho henv)
      obtain ⟨e, he⟩ := applyDelta_of_unsigned henv s d.now
      exact ⟨⟨e, he⟩, write_of_error (c := d.call) he⟩

/-- **Authentication of outcome deltas.**  From any store, every delivery of a run
keeps the promise of `verify_delta` if and only if no delta of the run carries an
outcome without a valid signature of its own inside a valid envelope. -/
theorem deltaAuthenticated_iff (x : Externals W) (s : SharedState) (ds : List (Delivery W)) :
    Guarded (receive x) (DeltaAuthenticated x) s ds ↔ ∀ d ∈ ds, InnerSigned x d := by
  have hguard : Guarded (receive x) (DeltaAuthenticated x) s ds ↔
      Guarded (receive x) (fun _ d => InnerSigned x d) s ds :=
    guarded_congr (I := fun _ => True) (fun _ _ _ => trivial)
      (fun s d _ => deltaAuthenticated_step x s d) trivial ds
  exact hguard.trans (guarded_const s ds)

/-- The task and the result an outcome of the small network refers to. -/
def parentCalls : List (Call ℚ) :=
  [⟨0, .recordSpec (smallSpec false)⟩, ⟨1, .recordResult (smallResult false)⟩]

/-- An outcome that peer 3 is said to have observed, under 64 zero bytes. -/
def forgedOutcome : JobOutcome ℚ :=
  { outcomeOf (smallSpecHash false) (smallResultHash false) .indeterminate 2 3 with
    signature := List.replicate 64 0 }

/-- The forged outcome in an envelope that peer 9 signed. -/
def forgedDelivery : Delivery ℚ where
  now := 5
  delta := { wireVersion := deltaWireVersion, kind := .outcome forgedOutcome,
             observer := peerOf 9, observedAt := 5, signature := List.replicate 64 9 }
  signerPubkey := (keyOf 9).verifyingKey

/-- The envelope verifies, the outcome does not, and the outcome is recorded. -/
theorem forged_outcome_recorded :
    verifyDelta (.small false [] [] []) forgedDelivery.delta forgedDelivery.signerPubkey = .ok () ∧
    forgedOutcome.verifySignature (.small false [] [] []) forgedDelivery.signerPubkey ≠ .ok () ∧
    ((run (write (.small false [] [] [])) .empty parentCalls).receive (.small false [] [] [])
      forgedDelivery).outcomes.contains (forgedOutcome.contentHash (.small false [] [] [])) = true ∧
    ¬ Guarded (receive (.small false [] [] [])) (DeltaAuthenticated (.small false [] [] []))
      (run (write (.small false [] [] [])) .empty parentCalls) [forgedDelivery] := by
  have hverified : verifyDelta (.small false [] [] []) forgedDelivery.delta
      forgedDelivery.signerPubkey = .ok () := by decide +kernel
  have hinner : forgedOutcome.verifySignature (.small false [] [] [])
      forgedDelivery.signerPubkey ≠ .ok () := by decide +kernel
  refine ⟨hverified, hinner, by decide +kernel, fun h => ?_⟩
  exact hinner (h.1.verified hverified forgedOutcome rfl)

end SharedState

end Parseh.Shared
