import Parseh.Lib.Run
import Parseh.Verify.Quorum
import Parseh.Wire.Table

/-!
# Whole runs of a quorum

A run of a quorum is any finite sequence of `add_verification` calls, accepted
or rejected.

* `votes_calls` is the invariant: the stored votes are those of the accepted
  calls, in order;
* `tryFinalise_run_safe`: a decided quorum has waited `t_min`, has `m` distinct
  verifiers behind its decision, reports exact counts, and after both time
  bounds every quorum is decided.
-/

namespace Parseh.Verify

open Parseh.Lib Parseh.Wire

/-- The arguments of one `add_verification` call. -/
structure AddCall where
  verification : JobVerification
  verifierReputation : UInt32
  verifierPubkey : VerifyingKey

/-- The vote the call stores when it is accepted. -/
def AddCall.stored (c : AddCall) : StoredVerification := ⟨c.verification, c.verifierReputation⟩

namespace Quorum

variable {W : Type} (x : Externals W)

def call (q : Quorum W) (c : AddCall) : Except VerifyError Unit × Quorum W :=
  q.addVerification x c.verification c.verifierReputation c.verifierPubkey

/-- The quorum after a sequence of calls. -/
def calls (q : Quorum W) (cs : List AddCall) : Quorum W := run (fun q c => (q.call x c).2) q cs

/-- The calls of the sequence that return `Ok`. -/
def accepted (q : Quorum W) : List AddCall → List AddCall
  | [] => []
  | c :: cs =>
    match (q.call x c).1 with
    | .ok () => c :: accepted (q.call x c).2 cs
    | .error _ => accepted (q.call x c).2 cs

/-- What an accepted call has passed. -/
structure Passed (resultHash : ContentHash) (c : AddCall) : Prop where
  resultHash : c.verification.resultHash = resultHash
  signature : c.verification.verifySignature x c.verifierPubkey = .ok ()

variable {x} {q : Quorum W} {cs : List AddCall}

theorem calls_cons (c : AddCall) : q.calls x (c :: cs) = (q.call x c).2.calls x cs := rfl

/-- One call inside a run: it is rejected and the run goes on from the same
quorum, or it is accepted and its vote is stored. -/
theorem call_cases (q : Quorum W) (c : AddCall) (cs : List AddCall) :
    ((q.call x c).2 = q ∧ q.accepted x (c :: cs) = q.accepted x cs) ∨
    ((q.call x c).2 = q.store c.stored ∧
      q.accepted x (c :: cs) = c :: (q.store c.stored).accepted x cs ∧
      Passed x q.resultHash c ∧ q.byVerifier.contains c.stored.verifier = false) := by
  rcases addVerification_cases x q c.verification c.verifierReputation c.verifierPubkey with
    ⟨⟨e, he⟩, hq⟩ | ⟨hok, hr, hs, hnew⟩
  · have he' : (q.call x c).1 = .error e := he
    have hq' : (q.call x c).2 = q := hq
    exact Or.inl ⟨hq, by simp only [accepted, he', hq']⟩
  · have hok' : q.call x c = (.ok (), q.store c.stored) := hok
    exact Or.inr ⟨by rw [hok'], by simp only [accepted, hok'], ⟨hr, hs⟩, hnew⟩

theorem accepted_sublist (q : Quorum W) (cs : List AddCall) : (q.accepted x cs).Sublist cs := by
  induction cs generalizing q with
  | nil => exact List.Sublist.refl _
  | cons c cs ih =>
    rcases call_cases (x := x) q c cs with ⟨-, h⟩ | ⟨-, h, -⟩
    · rw [h]
      exact (ih q).cons c
    · rw [h]
      exact (ih _).cons_cons c

/-- No sequence of calls touches anything but the votes. -/
theorem calls_frame (q : Quorum W) (cs : List AddCall) :
    (q.calls x cs).config = q.config ∧ (q.calls x cs).resultHash = q.resultHash ∧
    (q.calls x cs).specHash = q.specHash ∧ (q.calls x cs).startedAt = q.startedAt := by
  induction cs generalizing q with
  | nil => exact ⟨rfl, rfl, rfl, rfl⟩
  | cons c cs ih =>
    rw [calls_cons]
    rcases call_cases (x := x) q c cs with ⟨h, -⟩ | ⟨h, -⟩
    · rw [h]
      exact ih q
    · rw [h]
      exact ih (q.store c.stored)

/-- **The run invariant.**  The stored votes are those of the accepted calls. -/
theorem votes_calls (q : Quorum W) (cs : List AddCall) :
    (q.calls x cs).votes = q.votes ++ (q.accepted x cs).map AddCall.stored := by
  induction cs generalizing q with
  | nil => simp [calls, accepted]
  | cons c cs ih =>
    rw [calls_cons]
    rcases call_cases (x := x) q c cs with ⟨hq, h⟩ | ⟨hq, h, -, hnew⟩
    · rw [hq, h, ih]
    · rw [hq, h, ih, votes_store hnew, List.append_assoc, List.map_cons, List.singleton_append]

theorem passed_of_mem_accepted {c : AddCall} (h : c ∈ q.accepted x cs) :
    Passed x q.resultHash c := by
  induction cs generalizing q with
  | nil => cases h
  | cons d cs ih =>
    rcases call_cases (x := x) q d cs with ⟨-, ha⟩ | ⟨-, ha, hp, -⟩
    · rw [ha] at h
      exact ih h
    · rw [ha] at h
      rcases List.mem_cons.mp h with rfl | h
      · exact hp
      · exact ih (q := q.store d.stored) h

/-! ## From the votes of a fresh quorum back to its calls -/

variable {config : QuorumConfig W} {specHash resultHash : ContentHash} {startedAt : SystemTime}

theorem votes_calls_new :
    ((new config specHash resultHash startedAt).calls x cs).votes =
      ((new config specHash resultHash startedAt).accepted x cs).map AddCall.stored :=
  votes_calls _ cs

/-- `m` distinct verifiers, each with an accepted call whose vote satisfies `p`. -/
def Backed (x : Externals W) (resultHash : ContentHash) (acc : List AddCall)
    (p : StoredVerification → Bool) (m : Nat) : Prop :=
  ∃ verifiers : List PeerId, verifiers.Nodup ∧ m ≤ verifiers.length ∧
    ∀ v ∈ verifiers, ∃ c ∈ acc, c.verification.verifier = v ∧ Passed x resultHash c ∧
      p c.stored = true

/-- A head count over the stored votes is backed by as many verifiers. -/
theorem backed_of_countP {p : StoredVerification → Bool} {m : Nat}
    (h : m ≤ ((new config specHash resultHash startedAt).calls x cs).votes.countP p) :
    Backed x resultHash ((new config specHash resultHash startedAt).accepted x cs) p m := by
  let q := (new config specHash resultHash startedAt).calls x cs
  refine ⟨(q.votes.filter p).map (·.verifier), ?_, ?_, ?_⟩
  · exact q.byVerifier.nodup.sublist (List.filter_sublist.map _)
  · rw [List.length_map, ← List.countP_eq_length_filter]
    exact h
  · intro v hv
    obtain ⟨s, hs, rfl⟩ := List.mem_map.mp hv
    obtain ⟨hmem, hp⟩ := List.mem_filter.mp hs
    rw [show q.votes = _ from votes_calls_new] at hmem
    obtain ⟨c, hc, rfl⟩ := List.mem_map.mp hmem
    exact ⟨c, hc, rfl, passed_of_mem_accepted (q := new config specHash resultHash startedAt) hc,
      hp⟩

section Safety

variable [WeightArith W] (x : Externals W) (config : QuorumConfig W)
  (specHash resultHash : ContentHash) (startedAt now : SystemTime) (nowUnix : UInt64)
  (observer : PeerId) (key : SigningKey) (cs : List AddCall)

omit [WeightArith W] in
/-- The counters of a run of fewer than `2^32` calls, in terms of its calls. -/
theorem tally_calls (hlen : cs.length < 2 ^ 32) :
    (countVotes ((new config specHash resultHash startedAt).calls x cs).votes).Counts
      (((new config specHash resultHash startedAt).accepted x cs).map AddCall.stored) := by
  rw [votes_calls_new]
  refine countVotes_counts _ ?_
  rw [List.length_map]
  exact lt_of_le_of_lt (accepted_sublist _ cs).length_le hlen

theorem decision_calls :
    ((new config specHash resultHash startedAt).calls x cs).decision now =
      ladder config (elapsed now startedAt)
        ((new config specHash resultHash startedAt).calls x cs).tally.1
        ((new config specHash resultHash startedAt).calls x cs).tally.2.1
        ((new config specHash resultHash startedAt).calls x cs).tally.2.2.2 := by
  obtain ⟨hc, -, -, ht⟩ := calls_frame (x := x) (new config specHash resultHash startedAt) cs
  unfold decision
  rw [hc, ht]
  rfl

/-- A decision for one side is backed by as many verifiers as are required. -/
theorem backed_decision (hlen : cs.length < 2 ^ 32) :
    (((new config specHash resultHash startedAt).calls x cs).decision now = some .agreed →
      config.tMin ≤ elapsed now startedAt ∧
        Backed x resultHash ((new config specHash resultHash startedAt).accepted x cs)
          (·.isAgreed) config.m.toNat) ∧
    (((new config specHash resultHash startedAt).calls x cs).decision now = some .disagreed →
      config.tMin ≤ elapsed now startedAt ∧
        Backed x resultHash ((new config specHash resultHash startedAt).accepted x cs)
          (·.isDisagreed) config.m.toNat) := by
  have hcnt := tally_calls x config specHash resultHash startedAt cs hlen
  rw [decision_calls]
  constructor
  · intro hdec
    obtain ⟨hmin, hm, -⟩ := ladder_eq_agreed_iff.mp hdec
    refine ⟨hmin, backed_of_countP ?_⟩
    rw [votes_calls_new, ← hcnt.agreed]
    exact UInt32.le_iff_toNat_le.mp hm
  · intro hdec
    obtain ⟨hmin, -, hm, -⟩ := ladder_eq_disagreed_iff.mp hdec
    refine ⟨hmin, backed_of_countP ?_⟩
    rw [votes_calls_new, ← hcnt.disagreed]
    exact UInt32.le_iff_toNat_le.mp hm

omit [WeightArith W] in
/-- A call that is refused changes nothing. -/
theorem call_of_error {q : Quorum W} {c : AddCall} {e : VerifyError}
    (h : (q.call x c).1 = .error e) : (q.call x c).2 = q := by
  rcases addVerification_cases x q c.verification c.verifierReputation c.verifierPubkey with
    ⟨-, hsame⟩ | ⟨hok, -⟩
  · exact hsame
  · rw [call, hok] at h
    cases h

/-- **Quorum safety over whole runs.**  For every run of fewer than `2^32` calls
on a fresh quorum and every `now`. -/
theorem tryFinalise_run_safe (hlen : cs.length < 2 ^ 32) :
    (∀ f, ((new config specHash resultHash startedAt).calls x cs).tryFinalise x now nowUnix
        observer key = some f →
      (f.decision = .agreed → config.tMin ≤ elapsed now startedAt ∧
        Backed x resultHash ((new config specHash resultHash startedAt).accepted x cs)
          (·.isAgreed) config.m.toNat) ∧
      (f.decision = .disagreed → config.tMin ≤ elapsed now startedAt ∧
        Backed x resultHash ((new config specHash resultHash startedAt).accepted x cs)
          (·.isDisagreed) config.m.toNat) ∧
      f.agreements.toNat = ((new config specHash resultHash startedAt).accepted x cs).countP
        (·.stored.isAgreed) ∧
      f.disagreements.toNat = ((new config specHash resultHash startedAt).accepted x cs).countP
        (·.stored.isDisagreed) ∧
      f.abstentions.toNat = ((new config specHash resultHash startedAt).accepted x cs).countP
        (·.stored.isAbstained) ∧
      f.agreements.toNat + f.disagreements.toNat + f.abstentions.toNat =
        ((new config specHash resultHash startedAt).calls x cs).len) ∧
    (∀ before c after, cs = before ++ c :: after → ∀ e,
      (((new config specHash resultHash startedAt).calls x before).call x c).1 = .error e →
      (((new config specHash resultHash startedAt).calls x before).call x c).2 =
        (new config specHash resultHash startedAt).calls x before) ∧
    (max config.tMin config.tMax ≤ elapsed now startedAt →
      (((new config specHash resultHash startedAt).calls x cs).tryFinalise x now nowUnix observer
        key).isSome = true) := by
  have hcnt := tally_calls x config specHash resultHash startedAt cs hlen
  obtain ⟨hagreed, hdisagreed⟩ :=
    backed_decision x config specHash resultHash startedAt now cs hlen
  refine ⟨?_, fun before c after _ e he => call_of_error x he, ?_⟩
  · intro f hf
    have hdec := tryFinalise_decision hf
    obtain ⟨_, _, -, -, rfl⟩ := tryFinalise_eq_some_iff.mp hf
    refine ⟨?_, ?_, ?_, ?_, ?_, ?_⟩
    · rintro rfl
      exact hagreed hdec
    · rintro rfl
      exact hdisagreed hdec
    · exact hcnt.agreed.trans List.countP_map
    · exact hcnt.disagreed.trans List.countP_map
    · exact hcnt.abstained.trans List.countP_map
    · have hsum := countP_verdicts
        (((new config specHash resultHash startedAt).accepted x cs).map AddCall.stored)
      rw [← hcnt.agreed, ← hcnt.disagreed, ← hcnt.abstained, ← votes_calls_new] at hsum
      exact hsum
  · intro h
    rw [tryFinalise_isSome, decision_calls]
    exact ladder_isSome (le_trans (le_max_left _ _) h) (le_trans (le_max_right _ _) h)

end Safety

/-- Votes of the peers `ns` on one result, each given with reputation `rep`. -/
def ballots (ns : List UInt8) (verdict : VerifierVerdict) (rep : UInt32) : List AddCall :=
  ns.map fun n => ⟨voteOf (hashOf 7) n verdict, rep, (keyOf n).verifyingKey⟩

/-- A fresh standard quorum for `hashOf 7`, opened at the epoch. -/
def freshStandard : Quorum ℚ := new .standard (hashOf 6) (hashOf 7) 0

/-- Five agreeing verifiers close the standard quorum after `t_max`, and the run
safety names five of them. -/
theorem five_ballots_backed :
    (freshStandard.calls .bare (ballots [1, 2, 3, 4, 5] .agreed 10)).decision (fromSecs 30) =
      some .agreed ∧
    Backed .bare (hashOf 7) (freshStandard.accepted .bare (ballots [1, 2, 3, 4, 5] .agreed 10))
      (·.isAgreed) 5 := by
  have h := tryFinalise_run_safe .bare .standard (hashOf 6) (hashOf 7) 0 (fromSecs 30) 0
    (peerOf 9) (keyOf 9) (ballots [1, 2, 3, 4, 5] .agreed 10) (by decide)
  have hd : (freshStandard.calls .bare (ballots [1, 2, 3, 4, 5] .agreed 10)).decision
      (fromSecs 30) = some .agreed := by
    decide +kernel
  obtain ⟨f, hf⟩ := Option.isSome_iff_exists.mp (h.2.2 (by decide))
  have hfd : f.decision = .agreed :=
    Option.some.inj ((tryFinalise_decision hf).symm.trans hd)
  exact ⟨hd, ((h.1 f hf).1 hfd).2⟩

end Quorum

end Parseh.Verify
