import Mathlib.Tactic.Positivity
import Parseh.Verify.QuorumDecision

/-!
# Decisions that stay

What is decided stays decided: as time goes on, and as votes arrive that do not
speak against the decision.  Weights are exact rationals and the threshold is
above one half.

* `share_le_share`: the score rises with the weight of one side and falls with
  that of the other, also where no weight was cast;
* `ladder_later`, `ladder_agreed_mono` and `ladder_disagreed_mono` walk the ladder;
* `decision_stable` says it of every reachable quorum.
-/

namespace Parseh.Verify.Quorum

open Parseh.Lib Parseh.Wire

/-! ## The score -/

/-- The share of one side, where an empty total counts as zero. -/
theorem share_le_share {a a' d d' : Nat} (ha : a ≤ a') (hd : d' ≤ d) :
    (a : ℚ) / (a + d) ≤ a' / (a' + d') := by
  have hle : (0 : ℚ) ≤ a' / (a' + d') := by positivity
  rcases Nat.eq_zero_or_pos a with rfl | hpos
  · simpa using hle
  · have hpos : (0 : ℚ) < a := Nat.cast_pos.mpr hpos
    have ha : (a : ℚ) ≤ a' := Nat.cast_le.mpr ha
    have hd : (d' : ℚ) ≤ d := Nat.cast_le.mpr hd
    have hd0 : (0 : ℚ) ≤ d := Nat.cast_nonneg d
    have hd'0 : (0 : ℚ) ≤ d' := Nat.cast_nonneg d'
    rw [div_le_div_iff₀ (by linarith) (by linarith)]
    have hcross : (a : ℚ) * d' ≤ a' * d := mul_le_mul ha hd hd'0 (by linarith)
    linarith

/-- The score of the votes is the share of the agreeing weight. -/
theorem repWeighted_countVotes {l : List StoredVerification} (hlen : l.length < 2 ^ 32) :
    ((countVotes l).repWeighted : ℚ) =
      (repOf (·.isAgreed) l : ℚ) / (repOf (·.isAgreed) l + repOf (·.isDisagreed) l) := by
  have hcnt := countVotes_counts l hlen
  rw [Counters.repWeighted_eq (totalRep_countVotes hlen).1, Counters.totalRep, hcnt.agreedRep,
    hcnt.disagreedRep, Nat.cast_add]
  split
  · next hz =>
    have ha : repOf (·.isAgreed) l = 0 := by omega
    simp [ha]
  · rfl

/-! ## The ladder -/

section Ladder

variable {config : QuorumConfig ℚ} {e e' : Duration} {a a' d d' : UInt32} {w w' : ℚ}

/-- With a threshold above one half only one side can clear it. -/
theorem not_both_sides (hlo : 1 / 2 < config.repWeightedThreshold) :
    ¬ (WeightArith.ge w config.repWeightedThreshold = true ∧
      WeightArith.ge (WeightArith.oneSub w) config.repWeightedThreshold = true) := by
  rintro ⟨h, h'⟩
  rw [ge_iff] at h h'
  simp only [WeightArith.oneSub] at h'
  linarith

theorem ladder_later {dec : QuorumDecision} (h : ladder config e a d w = some dec) (he : e ≤ e') :
    ladder config e' a d w = some dec := by
  unfold ladder at h ⊢
  by_cases hmin : e < config.tMin
  · simp [hmin] at h
  · have hmin' : ¬ e' < config.tMin := fun hlt => hmin (lt_of_le_of_lt he hlt)
    rw [if_neg hmin] at h
    rw [if_neg hmin']
    dsimp only at h ⊢
    -- past `t_min` only the bound `t_max` looks at the time
    by_cases hmax : e ≥ config.tMax
    · have hmax' : e' ≥ config.tMax := le_trans hmax he
      rw [if_pos hmax] at h
      rw [if_pos hmax']
      exact h
    · rw [if_neg hmax] at h
      split at h
      · next hA => rw [if_pos hA]; exact h
      · next hA =>
        split at h
        · next hD => rw [if_neg hA, if_pos hD]; exact h
        · cases h

theorem ladder_agreed_mono (h : ladder config e a d w = some .agreed) (he : e ≤ e')
    (ha : a ≤ a') (hw : w ≤ w') : ladder config e' a' d' w' = some .agreed := by
  obtain ⟨hmin, hm, hge⟩ := ladder_eq_agreed_iff.mp h
  refine ladder_eq_agreed_iff.mpr ⟨le_trans hmin he, UInt32.le_trans hm ha, ?_⟩
  rw [ge_iff] at hge ⊢
  exact le_trans hge hw

theorem ladder_disagreed_mono (hlo : 1 / 2 < config.repWeightedThreshold)
    (h : ladder config e a d w = some .disagreed) (he : e ≤ e') (hd : d ≤ d') (hw : w' ≤ w) :
    ladder config e' a' d' w' = some .disagreed := by
  obtain ⟨hmin, -, hm, hge⟩ := ladder_eq_disagreed_iff.mp h
  have hge' : WeightArith.ge (WeightArith.oneSub w') config.repWeightedThreshold = true := by
    rw [ge_iff] at hge ⊢
    simp only [WeightArith.oneSub] at hge ⊢
    linarith
  refine ladder_eq_disagreed_iff.mpr ⟨le_trans hmin he, ?_, UInt32.le_trans hm hd, hge'⟩
  exact fun hA => not_both_sides hlo ⟨hA.2, hge'⟩

end Ladder

/-! ## More votes -/

section Votes

variable {l extra : List StoredVerification}

theorem repOf_append_list (p : StoredVerification → Bool) (l extra : List StoredVerification) :
    repOf p (l ++ extra) = repOf p l + repOf p extra := by
  simp [repOf, List.filter_append]

/-- Votes that are not on a side add nothing to it. -/
theorem repOf_eq_zero_of_none {p : StoredVerification → Bool}
    (h : ∀ s ∈ extra, p s = false) : repOf p extra = 0 := by
  have hnil : extra.filter p = [] := List.filter_eq_nil_iff.mpr fun s hs => by simp [h s hs]
  rw [repOf, hnil]
  rfl

/-- Votes for one side and abstentions are no votes for the other. -/
theorem isDisagreed_eq_false {s : StoredVerification} (h : s.isAgreed ∨ s.isAbstained) :
    s.isDisagreed = false := by
  unfold StoredVerification.isAgreed StoredVerification.isAbstained at h
  unfold StoredVerification.isDisagreed
  cases hv : s.verification.verdict <;> simp_all

theorem isAgreed_eq_false {s : StoredVerification} (h : s.isDisagreed ∨ s.isAbstained) :
    s.isAgreed = false := by
  unfold StoredVerification.isDisagreed StoredVerification.isAbstained at h
  unfold StoredVerification.isAgreed
  cases hv : s.verification.verdict <;> simp_all

variable (hlen : (l ++ extra).length < 2 ^ 32)
include hlen

theorem agreed_countVotes_mono : (countVotes l).agreed ≤ (countVotes (l ++ extra)).agreed := by
  have hl : l.length < 2 ^ 32 := lt_of_le_of_lt (List.sublist_append_left ..).length_le hlen
  rw [UInt32.le_iff_toNat_le, (countVotes_counts l hl).agreed, (countVotes_counts _ hlen).agreed,
    List.countP_append]
  exact Nat.le_add_right ..

theorem disagreed_countVotes_mono :
    (countVotes l).disagreed ≤ (countVotes (l ++ extra)).disagreed := by
  have hl : l.length < 2 ^ 32 := lt_of_le_of_lt (List.sublist_append_left ..).length_le hlen
  rw [UInt32.le_iff_toNat_le, (countVotes_counts l hl).disagreed,
    (countVotes_counts _ hlen).disagreed, List.countP_append]
  exact Nat.le_add_right ..

/-- Votes that do not disagree raise the score. -/
theorem repWeighted_le (h : ∀ s ∈ extra, s.isDisagreed = false) :
    ((countVotes l).repWeighted : ℚ) ≤ (countVotes (l ++ extra)).repWeighted := by
  have hl : l.length < 2 ^ 32 := lt_of_le_of_lt (List.sublist_append_left ..).length_le hlen
  rw [repWeighted_countVotes hl, repWeighted_countVotes hlen]
  refine share_le_share ?_ ?_
  · rw [repOf_append_list]
    exact Nat.le_add_right ..
  · rw [repOf_append_list, repOf_eq_zero_of_none h]
    exact le_rfl

/-- Votes that do not agree lower it. -/
theorem le_repWeighted (h : ∀ s ∈ extra, s.isAgreed = false) :
    ((countVotes (l ++ extra)).repWeighted : ℚ) ≤ (countVotes l).repWeighted := by
  have hl : l.length < 2 ^ 32 := lt_of_le_of_lt (List.sublist_append_left ..).length_le hlen
  rw [repWeighted_countVotes hl, repWeighted_countVotes hlen]
  refine share_le_share ?_ ?_
  · rw [repOf_append_list, repOf_eq_zero_of_none h]
    exact le_rfl
  · rw [repOf_append_list]
    exact Nat.le_add_right ..

end Votes

/-! ## Reachable quorums -/

/-- `try_finalise` decides `d` as of `now`, whoever observes it. -/
def DecidesAt (x : Externals ℚ) (q : Quorum ℚ) (now : SystemTime) (d : QuorumDecision) : Prop :=
  ∀ nowUnix observer key, ∃ f,
    q.tryFinalise x now nowUnix observer key = some f ∧ f.decision = d

/-- The two tests of `try_finalise`. -/
def AgreedQuorum (q : Quorum ℚ) : Prop :=
  q.config.m ≤ q.tally.1 ∧ WeightArith.ge q.tally.2.2.2 q.config.repWeightedThreshold = true

def DisagreedQuorum (q : Quorum ℚ) : Prop :=
  q.config.m ≤ q.tally.2.1 ∧
    WeightArith.ge (WeightArith.oneSub q.tally.2.2.2) q.config.repWeightedThreshold = true

section Reachable

variable {x : Externals ℚ} {q : Quorum ℚ} {now later : SystemTime}

theorem decidesAt_of_decision {d : QuorumDecision} (h : q.decision now = some d) :
    q.DecidesAt x now d := by
  intro nowUnix observer key
  have hsome : (q.tryFinalise x now nowUnix observer key).isSome = true := by
    rw [tryFinalise_isSome, h]
    rfl
  obtain ⟨f, hf⟩ := Option.isSome_iff_exists.mp hsome
  exact ⟨f, hf, Option.some.inj ((tryFinalise_decision hf).symm.trans h)⟩

theorem elapsed_mono (h : now ≤ later) (t : SystemTime) : elapsed now t ≤ elapsed later t := by
  unfold elapsed durationSince
  by_cases ht : t ≤ now
  · rw [if_pos ht, if_pos (le_trans ht h)]
    exact Int.toNat_le_toNat (Int.sub_le_sub_right h t)
  · rw [if_neg ht]
    exact Nat.zero_le _

theorem decision_later {d : QuorumDecision} (h : q.decision now = some d) (hle : now ≤ later) :
    q.decision later = some d :=
  ladder_later h (elapsed_mono hle _)

variable {more : List AddCall}

theorem decision_calls_eq (q : Quorum ℚ) (more : List AddCall) (now : SystemTime) :
    (q.calls x more).decision now =
      ladder q.config (elapsed now q.startedAt)
        (countVotes (q.votes ++ (q.accepted x more).map AddCall.stored)).agreed
        (countVotes (q.votes ++ (q.accepted x more).map AddCall.stored)).disagreed
        (countVotes (q.votes ++ (q.accepted x more).map AddCall.stored)).repWeighted := by
  obtain ⟨hc, -, -, ht⟩ := calls_frame (x := x) q more
  rw [decision_eq_ladder, hc, ht, votes_calls]

theorem agreed_stays (h : q.decision now = some .agreed)
    (hvotes : ∀ c ∈ q.accepted x more, c.stored.isAgreed ∨ c.stored.isAbstained)
    (hlen : (q.calls x more).len < 2 ^ 32) (hle : now ≤ later) :
    (q.calls x more).decision later = some .agreed := by
  rw [len, votes_calls] at hlen
  rw [decision_calls_eq]
  refine ladder_agreed_mono h (elapsed_mono hle _) (agreed_countVotes_mono hlen)
    (repWeighted_le hlen fun s hs => ?_)
  obtain ⟨c, hc, rfl⟩ := List.mem_map.mp hs
  exact isDisagreed_eq_false (hvotes c hc)

theorem disagreed_stays (hlo : 1 / 2 < q.config.repWeightedThreshold)
    (h : q.decision now = some .disagreed)
    (hvotes : ∀ c ∈ q.accepted x more, c.stored.isDisagreed ∨ c.stored.isAbstained)
    (hlen : (q.calls x more).len < 2 ^ 32) (hle : now ≤ later) :
    (q.calls x more).decision later = some .disagreed := by
  rw [len, votes_calls] at hlen
  rw [decision_calls_eq]
  refine ladder_disagreed_mono hlo h (elapsed_mono hle _) (disagreed_countVotes_mono hlen)
    (le_repWeighted hlen fun s hs => ?_)
  obtain ⟨c, hc, rfl⟩ := List.mem_map.mp hs
  exact isAgreed_eq_false (hvotes c hc)

end Reachable

/-- For every reachable quorum: a decision holds at every later time; `Agreed` outlasts
further `Agreed` and `Abstained` votes and `Disagreed` further `Disagreed` and
`Abstained` ones; the two tests never both pass.  The vote counters are `u32`, so the
votes are fewer than `2^32`. -/
theorem decision_stable (x : Externals ℚ) (config : QuorumConfig ℚ)
    (hlo : 1 / 2 < config.repWeightedThreshold)
    (specHash resultHash : ContentHash) (startedAt : SystemTime) (cs : List AddCall)
    (q : Quorum ℚ) (hq : q = (new config specHash resultHash startedAt).calls x cs) :
    (∀ now nowUnix observer key f, q.tryFinalise x now nowUnix observer key = some f →
      (∀ later, now ≤ later → q.DecidesAt x later f.decision) ∧
      (∀ more, (q.calls x more).len < 2 ^ 32 → f.decision = .agreed →
        (∀ c ∈ q.accepted x more, c.stored.isAgreed ∨ c.stored.isAbstained) →
        ∀ later, now ≤ later → (q.calls x more).DecidesAt x later .agreed) ∧
      (∀ more, (q.calls x more).len < 2 ^ 32 → f.decision = .disagreed →
        (∀ c ∈ q.accepted x more, c.stored.isDisagreed ∨ c.stored.isAbstained) →
        ∀ later, now ≤ later → (q.calls x more).DecidesAt x later .disagreed)) ∧
    ¬ (q.AgreedQuorum ∧ q.DisagreedQuorum) := by
  have hconfig : q.config = config := by
    rw [hq]
    exact (calls_frame _ cs).1
  have hlo' : 1 / 2 < q.config.repWeightedThreshold := by rwa [hconfig]
  refine ⟨fun now nowUnix observer key f hf => ?_, ?_⟩
  · have hdec := tryFinalise_decision hf
    refine ⟨fun later hle => ?_, fun more hlen hd hvotes later hle => ?_,
      fun more hlen hd hvotes later hle => ?_⟩
    · exact decidesAt_of_decision (decision_later hdec hle)
    · rw [hd] at hdec
      exact decidesAt_of_decision (agreed_stays hdec hvotes hlen hle)
    · rw [hd] at hdec
      exact decidesAt_of_decision (disagreed_stays hlo' hdec hvotes hlen hle)
  · rintro ⟨⟨-, hA⟩, -, hD⟩
    exact not_both_sides hlo' ⟨hA, hD⟩

/-- Five agreeing votes decide at `t_min`; a sixth vote that abstains and the rest of the
window leave it so. -/
theorem agreed_outlasts_abstention :
    ((freshStandard.calls .bare (ballots [1, 2, 3, 4, 5] .agreed 10)).calls .bare
      (ballots [6] .abstained 10)).DecidesAt .bare (fromSecs 30) .agreed := by
  have hdec : (freshStandard.calls .bare (ballots [1, 2, 3, 4, 5] .agreed 10)).decision
      (fromSecs 5) = some .agreed := by decide +kernel
  obtain ⟨f, hf, hfd⟩ := decidesAt_of_decision (x := .bare) hdec 0 (peerOf 9) (keyOf 9)
  have hstable := decision_stable .bare .standard (by decide +kernel) (hashOf 6) (hashOf 7) 0
    (ballots [1, 2, 3, 4, 5] .agreed 10) _ rfl
  exact (hstable.1 _ _ _ _ f hf).2.1 (ballots [6] .abstained 10) (by decide +kernel) hfd
    (by decide +kernel) (fromSecs 30) (by decide)

end Parseh.Verify.Quorum
