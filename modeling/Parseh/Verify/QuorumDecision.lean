import Mathlib.Tactic.Linarith
import Mathlib.Algebra.Order.Field.Rat
import Parseh.Verify.QuorumRun

/-!
# What a quorum decides

Two relational properties of the decision, each for every reachable quorum.

* With exact weights and a threshold in `(1/2, 1]`, `fairAt_iff` says exactly
  when unanimity reaches a verdict and the two sides are interchangeable: as
  soon as some weight was cast, before `t_min`, or while neither side has `m`
  votes.  The score of a quorum without weight is `0.0`, which reads as "all
  weight disagrees".
* `observers_agree`: two observers that receive the same votes in different
  orders decide alike when every verifier's first vote is the same for both.
-/

namespace Parseh.Verify

open Parseh.Lib Parseh.Wire

/-! ## Exchanging the two sides -/

/-- `Agreed` for `Disagreed` and back; the evidence of the new `Disagreed` is free. -/
def swapVerdict (evidence : ContentHash) : VerifierVerdict → VerifierVerdict
  | .agreed => .disagreed evidence
  | .disagreed _ => .agreed
  | .abstained => .abstained

def QuorumDecision.swap : QuorumDecision → QuorumDecision
  | .agreed => .disagreed
  | .disagreed => .agreed
  | d => d

namespace StoredVerification

def swap (evidence : ContentHash) (s : StoredVerification) : StoredVerification :=
  { s with verification :=
      { s.verification with verdict := swapVerdict evidence s.verification.verdict } }

end StoredVerification

namespace Quorum

/-- The quorum with every `Agreed` vote replaced by `Disagreed` and vice versa. -/
def swapVerdicts {W : Type} (q : Quorum W) (evidence : ContentHash) : Quorum W :=
  { q with byVerifier := q.byVerifier.mapRows (StoredVerification.swap evidence) fun _ => rfl }

def Counters.swap (t : Counters) : Counters :=
  { agreed := t.disagreed, disagreed := t.agreed, abstained := t.abstained,
    agreedRep := t.disagreedRep, disagreedRep := t.agreedRep }

theorem Counters.swap_add (t : Counters) (evidence : ContentHash) (s : StoredVerification) :
    t.swap.add (s.swap evidence) = (t.add s).swap := by
  simp only [Counters.add, StoredVerification.swap]
  cases s.verification.verdict <;> rfl

theorem countVotes_swap (evidence : ContentHash) (l : List StoredVerification) :
    countVotes (l.map (StoredVerification.swap evidence)) = (countVotes l).swap := by
  unfold countVotes
  -- the loop from any counters, since the accumulator changes along the list
  suffices h : ∀ t : Counters, (l.map (StoredVerification.swap evidence)).foldl Counters.add t.swap
      = (l.foldl Counters.add t).swap from h {}
  induction l with
  | nil => intro t; rfl
  | cons s l ih =>
    intro t
    rw [List.map_cons, List.foldl_cons, List.foldl_cons, Counters.swap_add]
    exact ih (t.add s)

/-! ## Exact weights -/

/-- The two sums of a bounded list of votes do not overflow together. -/
theorem repOf_add_le (l : List StoredVerification) :
    repOf (·.isAgreed) l + repOf (·.isDisagreed) l ≤ l.length * (2 ^ 32 - 1) := by
  induction l with
  | nil => simp [repOf]
  | cons s l ih =>
    have hs : s.reputation.toNat < 2 ^ 32 := s.reputation.toNat_lt
    simp only [repOf_cons, List.length_cons]
    -- a vote is on one side at most
    have hside : (if s.isAgreed then s.reputation.toNat else 0) +
        (if s.isDisagreed then s.reputation.toNat else 0) ≤ s.reputation.toNat := by
      unfold StoredVerification.isAgreed StoredVerification.isDisagreed
      cases s.verification.verdict <;> simp
    omega

/-- Some `Agreed` or `Disagreed` vote carries weight. -/
def Weighted (l : List StoredVerification) : Prop :=
  ∃ s ∈ l, (s.isAgreed ∨ s.isDisagreed) ∧ s.reputation ≠ 0

instance (l : List StoredVerification) : Decidable (Weighted l) :=
  inferInstanceAs (Decidable (∃ s ∈ l, (s.isAgreed ∨ s.isDisagreed) ∧ s.reputation ≠ 0))

theorem repOf_eq_zero_iff (p : StoredVerification → Bool) (l : List StoredVerification) :
    repOf p l = 0 ↔ ∀ s ∈ l, p s → s.reputation = 0 := by
  induction l with
  | nil => simp [repOf]
  | cons s l ih =>
    have hs : s.reputation.toNat = 0 ↔ s.reputation = 0 :=
      ⟨fun h => UInt32.toNat.inj h, fun h => by rw [h]; rfl⟩
    rw [repOf_cons, Nat.add_eq_zero_iff, ih, List.forall_mem_cons]
    cases p s <;> simp [hs]

theorem weighted_iff (l : List StoredVerification) :
    Weighted l ↔ 0 < repOf (·.isAgreed) l + repOf (·.isDisagreed) l := by
  have hz : repOf (·.isAgreed) l + repOf (·.isDisagreed) l = 0 ↔ ¬ Weighted l := by
    rw [Nat.add_eq_zero_iff, repOf_eq_zero_iff, repOf_eq_zero_iff]
    constructor
    · rintro ⟨ha, hd⟩ ⟨s, hs, h | h, hne⟩
      · exact hne (ha s hs h)
      · exact hne (hd s hs h)
    · intro h
      constructor <;> intro s hs hp <;> by_contra hne
      · exact h ⟨s, hs, Or.inl hp, hne⟩
      · exact h ⟨s, hs, Or.inr hp, hne⟩
  rw [Nat.pos_iff_ne_zero, Ne, hz, not_not]

/-- The weight cast on both sides. -/
def Counters.totalRep (t : Counters) : Nat := t.agreedRep.toNat + t.disagreedRep.toNat

/-- Without overflow the score is the exact ratio of the two sums. -/
theorem Counters.repWeighted_eq {t : Counters} (h : t.totalRep < 2 ^ 64) :
    (t.repWeighted : ℚ) =
      if t.totalRep = 0 then 0 else (t.agreedRep.toNat : ℚ) / (t.totalRep : ℚ) := by
  have hsum : (t.agreedRep + t.disagreedRep).toNat = t.totalRep := by
    rw [UInt64.toNat_add]
    exact Nat.mod_eq_of_lt h
  have hzero : t.agreedRep + t.disagreedRep = 0 ↔ t.totalRep = 0 := by
    rw [← hsum]
    exact ⟨fun h => by rw [h]; rfl, fun h => UInt64.toNat.inj h⟩
  unfold Counters.repWeighted
  simp only [hzero]
  split
  · rfl
  · rw [hsum]
    rfl

theorem Counters.totalRep_swap (t : Counters) : t.swap.totalRep = t.totalRep := Nat.add_comm _ _

/-- Exchanging the sides mirrors the score, unless no weight was cast. -/
theorem Counters.repWeighted_swap {t : Counters} (h : t.totalRep < 2 ^ 64)
    (hpos : t.totalRep ≠ 0) : (t.swap.repWeighted : ℚ) = 1 - t.repWeighted := by
  have hne : (t.totalRep : ℚ) ≠ 0 := Nat.cast_ne_zero.mpr hpos
  have hsum : (t.totalRep : ℚ) = t.agreedRep.toNat + t.disagreedRep.toNat :=
    Nat.cast_add _ _
  rw [Counters.repWeighted_eq h, Counters.repWeighted_eq (by rwa [totalRep_swap]),
    totalRep_swap, if_neg hpos, if_neg hpos]
  have hswap : (t.swap.agreedRep.toNat : ℚ) = t.disagreedRep.toNat := rfl
  rw [hswap, eq_sub_iff_add_eq, ← add_div, add_comm, ← hsum, div_self hne]

theorem totalRep_countVotes {l : List StoredVerification} (hlen : l.length < 2 ^ 32) :
    (countVotes l).totalRep < 2 ^ 64 ∧ ((countVotes l).totalRep ≠ 0 ↔ Weighted l) := by
  have h := countVotes_counts l hlen
  have hle := repOf_add_le l
  have ht : (countVotes l).totalRep = repOf (·.isAgreed) l + repOf (·.isDisagreed) l := by
    rw [Counters.totalRep, h.agreedRep, h.disagreedRep]
  rw [weighted_iff, ht]
  omega

/-! ## The ladder under the exchange -/

section Exact

variable {config : QuorumConfig ℚ}

theorem ge_iff {w t : ℚ} : WeightArith.ge w t = true ↔ t ≤ w := by
  simp [WeightArith.ge]

/-- The last rung of the ladder does not distinguish the sides. -/
private theorem split_swap (config : QuorumConfig ℚ) (e : Duration) (a d : UInt32) :
    (if e ≥ config.tMax then
        if d ≥ max (config.m / 2) 1 ∧ a ≥ max (config.m / 2) 1 then some QuorumDecision.disputed
        else some .indeterminate
      else none) =
      (if e ≥ config.tMax then
        if a ≥ max (config.m / 2) 1 ∧ d ≥ max (config.m / 2) 1 then some QuorumDecision.disputed
        else some .indeterminate
      else none).map QuorumDecision.swap := by
  have hcomm : (d ≥ max (config.m / 2) 1 ∧ a ≥ max (config.m / 2) 1) =
      (a ≥ max (config.m / 2) 1 ∧ d ≥ max (config.m / 2) 1) := propext and_comm
  simp only [hcomm]
  split
  · split <;> rfl
  · rfl

/-- With a threshold above one half at most one side clears it, so the order of
the two tests does not matter. -/
theorem ladder_swap (hlo : 1 / 2 < config.repWeightedThreshold) (e : Duration) (a d : UInt32)
    (w : ℚ) :
    ladder config e d a (1 - w) = (ladder config e a d w).map QuorumDecision.swap := by
  have hback : (1 : ℚ) - (1 - w) = w := sub_sub_cancel 1 w
  have hnot : ¬ (config.repWeightedThreshold ≤ w ∧ config.repWeightedThreshold ≤ 1 - w) := by
    rintro ⟨h1, h2⟩
    linarith
  simp only [ladder, ge_iff, WeightArith.oneSub, hback]
  by_cases hmin : e < config.tMin
  · simp [hmin]
  · simp only [hmin, if_false]
    by_cases hA : a ≥ config.m ∧ config.repWeightedThreshold ≤ w
    · have hD : ¬ (d ≥ config.m ∧ config.repWeightedThreshold ≤ 1 - w) :=
        fun h => hnot ⟨hA.2, h.2⟩
      simp [hA, hD, QuorumDecision.swap]
    · by_cases hD : d ≥ config.m ∧ config.repWeightedThreshold ≤ 1 - w
      · simp [hA, hD, QuorumDecision.swap]
      · simp only [hA, hD, if_false]
        exact split_swap config e a d

/-- Without weight the score is zero: `Agreed` is out of reach and `Disagreed`
only needs the head count. -/
theorem ladder_zero (hlo : 1 / 2 < config.repWeightedThreshold)
    (hhi : config.repWeightedThreshold ≤ 1) {e : Duration} (hmin : config.tMin ≤ e)
    (a d : UInt32) :
    ladder config e a d 0 ≠ some .agreed ∧
      (ladder config e a d 0 = some .disagreed ↔ config.m ≤ d) := by
  have hnot : ¬ (config.m ≤ a ∧ WeightArith.ge (0 : ℚ) config.repWeightedThreshold = true) := by
    rintro ⟨-, h⟩
    have := ge_iff.mp h
    linarith
  have hone : WeightArith.ge (WeightArith.oneSub (0 : ℚ)) config.repWeightedThreshold = true := by
    rw [ge_iff]
    simpa [WeightArith.oneSub] using hhi
  constructor
  · intro h
    exact hnot (ladder_eq_agreed_iff.mp h).2
  · rw [ladder_eq_disagreed_iff]
    exact ⟨fun h => h.2.2.1, fun h => ⟨hmin, hnot, h, hone⟩⟩

/-- While neither side has `m` votes the score is not looked at. -/
theorem ladder_of_lt {e : Duration} {a d : UInt32} (ha : ¬ config.m ≤ a) (hd : ¬ config.m ≤ d)
    (w : ℚ) : ladder config e d a w = (ladder config e a d w).map QuorumDecision.swap := by
  have ha' : ¬ a ≥ config.m := ha
  have hd' : ¬ d ≥ config.m := hd
  simp only [ladder, ha', hd', false_and, if_false]
  split
  · rfl
  · exact split_swap config e a d

end Exact

/-! ## Unanimity and symmetry -/

/-- Unanimity reaches a verdict, and exchanging the two sides exchanges the
decision. -/
structure FairAt (q : Quorum ℚ) (now : SystemTime) : Prop where
  unanimity : q.config.tMin ≤ elapsed now q.startedAt →
    q.config.m.toNat ≤ q.votes.countP (·.isAgreed) → q.votes.countP (·.isDisagreed) = 0 →
    q.decision now = some .agreed
  symmetry : ∀ evidence, (q.swapVerdicts evidence).decision now =
    (q.decision now).map QuorumDecision.swap

theorem decision_eq_ladder (q : Quorum ℚ) (now : SystemTime) :
    q.decision now = ladder q.config (elapsed now q.startedAt) (countVotes q.votes).agreed
      (countVotes q.votes).disagreed (countVotes q.votes).repWeighted := rfl

theorem decision_swapVerdicts (q : Quorum ℚ) (evidence : ContentHash) (now : SystemTime) :
    (q.swapVerdicts evidence).decision now =
      ladder q.config (elapsed now q.startedAt) (countVotes q.votes).disagreed
        (countVotes q.votes).agreed (countVotes q.votes).swap.repWeighted := by
  rw [decision_eq_ladder, show (q.swapVerdicts evidence).votes =
    q.votes.map (StoredVerification.swap evidence) from rfl, countVotes_swap]
  rfl

section Fair

variable {q : Quorum ℚ} {now : SystemTime}

/-- Some weight was cast: both halves hold. -/
theorem fairAt_of_weighted (hlo : 1 / 2 < q.config.repWeightedThreshold)
    (hhi : q.config.repWeightedThreshold ≤ 1) (hlen : q.votes.length < 2 ^ 32)
    (hw : Weighted q.votes) : FairAt q now := by
  obtain ⟨hlt, hpos⟩ := totalRep_countVotes hlen
  have hne := hpos.mpr hw
  have hcnt := countVotes_counts q.votes hlen
  constructor
  · intro hmin hm hnone
    -- nobody disagrees, so the agreeing weight is all of it
    have hrd : (countVotes q.votes).disagreedRep.toNat = 0 := by
      rw [hcnt.disagreedRep, repOf_eq_zero_iff]
      intro s hs hd
      exact absurd hd (by simpa using List.countP_eq_zero.mp hnone s hs)
    have hone : ((countVotes q.votes).repWeighted : ℚ) = 1 := by
      have htot : (countVotes q.votes).totalRep = (countVotes q.votes).agreedRep.toNat := by
        rw [Counters.totalRep, hrd, Nat.add_zero]
      rw [Counters.repWeighted_eq hlt, if_neg hne, ← htot]
      exact div_self (Nat.cast_ne_zero.mpr hne)
    rw [decision_eq_ladder, hone, ladder_eq_agreed_iff]
    refine ⟨hmin, ?_, ge_iff.mpr hhi⟩
    rw [UInt32.le_iff_toNat_le, hcnt.agreed]
    exact hm
  · intro evidence
    rw [decision_swapVerdicts, Counters.repWeighted_swap hlt hne, decision_eq_ladder]
    exact ladder_swap hlo _ _ _ _

/-- Without weight the ratio is zero, whichever way the sides are named. -/
theorem repWeighted_of_not_weighted (hlen : q.votes.length < 2 ^ 32) (hw : ¬ Weighted q.votes) :
    ((countVotes q.votes).repWeighted : ℚ) = 0 ∧
      ((countVotes q.votes).swap.repWeighted : ℚ) = 0 := by
  obtain ⟨hlt, hpos⟩ := totalRep_countVotes hlen
  have hzero : (countVotes q.votes).totalRep = 0 := by
    by_contra h
    exact hw (hpos.mp h)
  constructor
  · rw [Counters.repWeighted_eq hlt, if_pos hzero]
  · rw [Counters.repWeighted_eq (by rwa [Counters.totalRep_swap]), Counters.totalRep_swap,
      if_pos hzero]

/-- No weight, both sides below `m`: nothing is decided by count, on either side. -/
theorem fairAt_of_lt (hlen : q.votes.length < 2 ^ 32) (hw : ¬ Weighted q.votes)
    (ha : q.votes.countP (·.isAgreed) < q.config.m.toNat)
    (hd : q.votes.countP (·.isDisagreed) < q.config.m.toNat) : FairAt q now := by
  obtain ⟨hw0, hs0⟩ := repWeighted_of_not_weighted hlen hw
  have hcnt := countVotes_counts q.votes hlen
  constructor
  · intro _ hm _
    omega
  · intro evidence
    rw [decision_swapVerdicts, hs0, decision_eq_ladder, hw0]
    refine ladder_of_lt ?_ ?_ _
    · rw [UInt32.le_iff_toNat_le, hcnt.agreed]
      omega
    · rw [UInt32.le_iff_toNat_le, hcnt.disagreed]
      omega

/-- No weight, one side has `m` votes: exchanging the sides leads to `Disagreed`
from a decision that is not `Agreed`. -/
theorem not_fairAt (hlo : 1 / 2 < q.config.repWeightedThreshold)
    (hhi : q.config.repWeightedThreshold ≤ 1) (hlen : q.votes.length < 2 ^ 32)
    (hmin : q.config.tMin ≤ elapsed now q.startedAt) (hw : ¬ Weighted q.votes)
    (hm : q.config.m.toNat ≤ q.votes.countP (·.isAgreed) ∨
      q.config.m.toNat ≤ q.votes.countP (·.isDisagreed)) : ¬ FairAt q now := by
  obtain ⟨hw0, hs0⟩ := repWeighted_of_not_weighted hlen hw
  have hcnt := countVotes_counts q.votes hlen
  intro hfair
  have hsym := hfair.symmetry q.resultHash
  rw [decision_swapVerdicts, decision_eq_ladder, hw0, hs0] at hsym
  obtain ⟨hnoA, hiff⟩ := ladder_zero hlo hhi hmin (countVotes q.votes).agreed
    (countVotes q.votes).disagreed
  obtain ⟨hnoA', hiff'⟩ := ladder_zero hlo hhi hmin (countVotes q.votes).disagreed
    (countVotes q.votes).agreed
  rcases hm with hm | hm
  · have hD : q.config.m ≤ (countVotes q.votes).agreed := by
      rw [UInt32.le_iff_toNat_le, hcnt.agreed]
      exact hm
    rw [hiff'.mpr hD] at hsym
    obtain ⟨dec, hdec, hsw⟩ := Option.map_eq_some_iff.mp hsym.symm
    cases dec <;> simp_all [QuorumDecision.swap]
  · have hD : q.config.m ≤ (countVotes q.votes).disagreed := by
      rw [UInt32.le_iff_toNat_le, hcnt.disagreed]
      exact hm
    rw [hiff.mpr hD] at hsym
    exact hnoA' hsym

end Fair

/-- **When a quorum is fair.**  For every run of fewer than `2^32` calls and
every `now`. -/
theorem fairAt_iff (x : Externals ℚ) (config : QuorumConfig ℚ)
    (hlo : 1 / 2 < config.repWeightedThreshold) (hhi : config.repWeightedThreshold ≤ 1)
    (specHash resultHash : ContentHash) (startedAt now : SystemTime) (cs : List AddCall)
    (hlen : cs.length < 2 ^ 32) :
    FairAt ((new config specHash resultHash startedAt).calls x cs) now ↔
      elapsed now startedAt < config.tMin ∨
      Weighted ((new config specHash resultHash startedAt).calls x cs).votes ∨
      (((new config specHash resultHash startedAt).calls x cs).votes.countP (·.isAgreed) <
          config.m.toNat ∧
        ((new config specHash resultHash startedAt).calls x cs).votes.countP (·.isDisagreed) <
          config.m.toNat) := by
  obtain ⟨hc, -, -, ht⟩ := calls_frame (x := x) (new config specHash resultHash startedAt) cs
  have hl : ((new config specHash resultHash startedAt).calls x cs).votes.length < 2 ^ 32 := by
    rw [votes_calls_new, List.length_map]
    exact lt_of_le_of_lt (accepted_sublist _ cs).length_le hlen
  generalize (new config specHash resultHash startedAt).calls x cs = q at hc ht hl
  replace hc : q.config = config := hc
  replace ht : q.startedAt = startedAt := ht
  subst hc ht
  by_cases hmin : elapsed now q.startedAt < q.config.tMin
  · refine iff_of_true ⟨?_, ?_⟩ (Or.inl hmin)
    · intro h
      exact absurd hmin (Nat.not_lt.mpr h)
    · intro evidence
      rw [decision_swapVerdicts, decision_eq_ladder, ladder_before_tMin hmin,
        ladder_before_tMin hmin]
      rfl
  by_cases hw : Weighted q.votes
  · exact iff_of_true (fairAt_of_weighted hlo hhi hl hw) (Or.inr (Or.inl hw))
  constructor
  · intro hfair
    refine Or.inr (Or.inr ?_)
    by_contra h
    have hm : q.config.m.toNat ≤ q.votes.countP (·.isAgreed) ∨
        q.config.m.toNat ≤ q.votes.countP (·.isDisagreed) := by omega
    exact not_fairAt hlo hhi hl (Nat.not_lt.mp hmin) hw hm hfair
  · rintro (h | h | ⟨ha, hd⟩)
    · exact absurd h hmin
    · exact absurd h hw
    · exact fairAt_of_lt hl hw ha hd

/-- Five verifiers without reputation agree and nobody disagrees, yet at six
seconds the standard quorum is still open. -/
theorem not_fairAt_five_unweighted :
    ¬ FairAt (freshStandard.calls .bare (ballots [1, 2, 3, 4, 5] .agreed 0)) (fromSecs 6) := by
  intro h
  have := h.unanimity (by decide) (by decide) (by decide)
  revert this
  decide +kernel

/-- The same five with reputation 10 are treated fairly. -/
theorem fairAt_five_weighted :
    FairAt (freshStandard.calls .bare (ballots [1, 2, 3, 4, 5] .agreed 10)) (fromSecs 6) :=
  (fairAt_iff .bare .standard (by decide +kernel) (by decide +kernel) (hashOf 6) (hashOf 7) 0
    (fromSecs 6) (ballots [1, 2, 3, 4, 5] .agreed 10) (by decide)).mpr
    (Or.inr (Or.inl (by decide +kernel)))

/-! ## Observers of the same votes -/

section Observers

variable {W : Type}

/-- A vote for `resultHash` that verifies under its verifier's key. -/
def ValidVote (x : Externals W) (keys : PeerId → VerifyingKey) (resultHash : ContentHash)
    (v : JobVerification) : Prop :=
  v.resultHash = resultHash ∧ v.verifySignature x (keys v.verifier) = .ok ()

/-- The call an observer makes for a vote it hears. -/
def heard (keys : PeerId → VerifyingKey) (reputation : PeerId → UInt32) (v : JobVerification) :
    AddCall :=
  ⟨v, reputation v.verifier, keys v.verifier⟩

/-- Hear the votes in order, ignoring errors. -/
def observe (x : Externals W) (keys : PeerId → VerifyingKey) (reputation : PeerId → UInt32)
    (q : Quorum W) (vs : List JobVerification) : Quorum W :=
  q.calls x (vs.map (heard keys reputation))

/-- What a finalised quorum says about the result, whoever signed it. -/
def content (f : FinalisedQuorum W) : QuorumDecision × OutcomeVerdict W × List ContentHash :=
  (f.decision, f.outcome.verdict, f.outcome.verificationHashes)

variable {x : Externals W} {keys : PeerId → VerifyingKey} {reputation : PeerId → UInt32}
  {q : Quorum W}

/-- A valid vote is stored unless its verifier has voted: first one wins. -/
theorem call_heard (reputation : PeerId → UInt32) {v : JobVerification}
    (hv : ValidVote x keys q.resultHash v) :
    (q.call x (heard keys reputation v)).2 =
      { q with byVerifier := q.byVerifier.insertOrIgnore (heard keys reputation v).stored } := by
  have hkey : (heard keys reputation v).stored.verifier = v.verifier := rfl
  cases hc : q.byVerifier.contains v.verifier with
  | true =>
    rw [Keyed.insertOrIgnore_of_contains (hkey ▸ hc)]
    exact addVerification_dup hc
  | false =>
    have hrows : q.byVerifier.upsert (heard keys reputation v).stored =
        q.byVerifier.insertOrIgnore (heard keys reputation v).stored := by
      apply Keyed.ext
      rw [Keyed.rows_upsert_of_not_contains (hkey ▸ hc), Keyed.rows_insertOrIgnore (hkey ▸ hc)]
    rw [← hrows]
    exact congrArg Prod.snd (addVerification_ok hv.1 hv.2 hc)

/-- Hearing valid votes is inserting them under "first one wins". -/
theorem byVerifier_observe {vs : List JobVerification}
    (hv : ∀ v ∈ vs, ValidVote x keys q.resultHash v) :
    (q.observe x keys reputation vs).byVerifier =
      q.byVerifier.insertAll (vs.map fun v => (heard keys reputation v).stored) := by
  induction vs generalizing q with
  | nil => rfl
  | cons v vs ih =>
    have hhead := call_heard reputation (hv v List.mem_cons_self)
    rw [observe, List.map_cons, calls_cons, hhead, List.map_cons, Keyed.insertAll_cons]
    exact ih (q := { q with byVerifier := _ }) fun u hu => hv u (List.mem_cons_of_mem v hu)

variable [WeightArith W]

theorem content_tryFinalise {q₁ q₂ : Quorum W} {now : SystemTime} {t₁ t₂ : UInt64}
    {o₁ o₂ : PeerId} {k₁ k₂ : SigningKey} (hc : q₁.config = q₂.config)
    (ht : q₁.startedAt = q₂.startedAt) (h : q₁.votes.Perm q₂.votes) :
    (q₁.tryFinalise x now t₁ o₁ k₁).map content = (q₂.tryFinalise x now t₂ o₂ k₂).map content := by
  simp only [tryFinalise, tally_congr h, decision_congr hc ht h, outcomeVerdict_congr h,
    verificationHashes_congr h]
  cases q₂.decision now with
  | none => rfl
  | some dec => cases hv : q₂.outcomeVerdict dec <;> simp [hv, content, JobOutcome.newSignedAt]

/-- **Observer agreement.**  Two observers hear the same valid votes in orders
in which each verifier's first vote is the same. -/
theorem observers_agree (x : Externals W) (keys : PeerId → VerifyingKey)
    (reputation : PeerId → UInt32) (config : QuorumConfig W) (specHash resultHash : ContentHash)
    (startedAt now : SystemTime) (vs₁ vs₂ : List JobVerification) (hperm : vs₁.Perm vs₂)
    (hvalid : ∀ v ∈ vs₁, ValidVote x keys resultHash v)
    (hfirst : ∀ p, vs₁.find? (fun v => v.verifier = p) = vs₂.find? (fun v => v.verifier = p))
    (t₁ t₂ : UInt64) (o₁ o₂ : PeerId) (k₁ k₂ : SigningKey) :
    (((new config specHash resultHash startedAt).observe x keys reputation vs₁).tryFinalise x now
        t₁ o₁ k₁).map content =
      (((new config specHash resultHash startedAt).observe x keys reputation vs₂).tryFinalise x
        now t₂ o₂ k₂).map content := by
  have hvalid₂ : ∀ v ∈ vs₂, ValidVote x keys resultHash v :=
    fun v hv => hvalid v (hperm.mem_iff.mpr hv)
  obtain ⟨hc₁, -, -, ht₁⟩ := calls_frame (x := x) (new config specHash resultHash startedAt)
    (vs₁.map (heard keys reputation))
  obtain ⟨hc₂, -, -, ht₂⟩ := calls_frame (x := x) (new config specHash resultHash startedAt)
    (vs₂.map (heard keys reputation))
  refine content_tryFinalise (hc₁.trans hc₂.symm) (ht₁.trans ht₂.symm) ?_
  unfold votes
  rw [byVerifier_observe (q := new config specHash resultHash startedAt) hvalid,
    byVerifier_observe (q := new config specHash resultHash startedAt) hvalid₂]
  apply Keyed.insertAll_perm
  intro p
  have hmap : ∀ vs : List JobVerification,
      (vs.map fun v => (heard keys reputation v).stored).find? (fun s => s.verifier = p) =
        (vs.find? fun v => v.verifier = p).map fun v => (heard keys reputation v).stored := by
    intro vs
    rw [List.find?_map]
    rfl
  rw [hmap, hmap, hfirst]

end Observers

/-- Four agreeing votes and an equivocating fifth verifier. -/
def equivocal (first second : VerifierVerdict) : List JobVerification :=
  [voteOf (hashOf 7) 1 .agreed, voteOf (hashOf 7) 2 .agreed, voteOf (hashOf 7) 3 .agreed,
    voteOf (hashOf 7) 4 .agreed, voteOf (hashOf 7) 5 first, voteOf (hashOf 7) 5 second]

/-- The key of a one-byte peer. -/
def keysOf (p : PeerId) : VerifyingKey := (keyOf (p.toBytes.headD 0)).verifyingKey

/-- The order in which the two votes of an equivocating verifier arrive decides
between `Agreed` and `Indeterminate`. -/
theorem observers_split :
    (equivocal .agreed (.disagreed (hashOf 8))).Nodup ∧
    (equivocal .agreed (.disagreed (hashOf 8))).Perm
      (equivocal (.disagreed (hashOf 8)) .agreed) ∧
    (∀ v ∈ equivocal .agreed (.disagreed (hashOf 8)), ValidVote .bare keysOf (hashOf 7) v) ∧
    ((freshStandard.observe .bare keysOf (fun _ => 10)
      (equivocal .agreed (.disagreed (hashOf 8)))).tryFinalise .bare (fromSecs 30) 0 (peerOf 8)
      (keyOf 8)).map (·.decision) = some .agreed ∧
    ((freshStandard.observe .bare keysOf (fun _ => 10)
      (equivocal (.disagreed (hashOf 8)) .agreed)).tryFinalise .bare (fromSecs 30) 0 (peerOf 9)
      (keyOf 9)).map (·.decision) = some .indeterminate := by
  refine ⟨by decide, ?_, ?_, by decide +kernel, by decide +kernel⟩
  · exact (List.Perm.swap _ _ []).symm.cons _ |>.cons _ |>.cons _ |>.cons _
  · intro v hv
    simp only [equivocal, List.mem_cons, List.not_mem_nil, or_false] at hv
    rcases hv with rfl | rfl | rfl | rfl | rfl | rfl <;> exact ⟨rfl, rfl⟩

/-- Honest votes in two orders lead to one outcome. -/
theorem observers_agree_reversed :
    ((freshStandard.observe .bare keysOf (fun _ => 10)
        [voteOf (hashOf 7) 1 .agreed, voteOf (hashOf 7) 2 .abstained]).tryFinalise .bare
        (fromSecs 30) 0 (peerOf 8) (keyOf 8)).map content =
      ((freshStandard.observe .bare keysOf (fun _ => 10)
        [voteOf (hashOf 7) 2 .abstained, voteOf (hashOf 7) 1 .agreed]).tryFinalise .bare
        (fromSecs 30) 1 (peerOf 9) (keyOf 9)).map content := by
  refine observers_agree .bare keysOf (fun _ => 10) .standard (hashOf 6) (hashOf 7) 0 (fromSecs 30)
    _ _ (List.Perm.swap _ _ []) ?_ ?_ 0 1 _ _ _ _
  · intro v hv
    simp only [List.mem_cons, List.not_mem_nil, or_false] at hv
    rcases hv with rfl | rfl <;> exact ⟨rfl, rfl⟩
  · intro p
    have h1 : (voteOf (hashOf 7) 1 .agreed).verifier = peerOf 1 := rfl
    have h2 : (voteOf (hashOf 7) 2 .abstained).verifier = peerOf 2 := rfl
    by_cases hp : peerOf 1 = p
    · subst hp
      decide
    · by_cases hp' : peerOf 2 = p
      · subst hp'
        decide
      · simp [h1, h2, hp, hp']

end Quorum

end Parseh.Verify
