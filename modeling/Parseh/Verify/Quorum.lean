import Mathlib.Algebra.GroupWithZero.Nat
import Mathlib.Data.List.Induction
import Parseh.Lib.Keyed
import Parseh.Wire.Messages

/-!
# The M-of-N quorum aggregator (`parseh-verify`, `quorum.rs`)

The quorum of one result, as the aggregator computes it: `addVerification`,
`tally`, the decision ladder and `tryFinalise`.  The hash map of votes is a
`Keyed` table; its row order stands for the iteration order of the map, and
`tryFinalise_congr` shows that no result depends on it.

* `addVerification_cases` says everything one call can do;
* `countVotes_counts` gives the counters and weights of fewer than `2^32` votes
  as plain counts and sums;
* `ladder_eq_agreed_iff`, `ladder_eq_disagreed_iff` and `ladder_isSome` read the
  decision ladder.
-/

namespace Parseh.Verify

open Parseh.Lib Parseh.Wire

/-! ## Errors and parameters -/

inductive VerifyError
  | execution (text : String)
  | methodNotImplementedInV02
  | modelUnavailable (text : String)
  | seedMissing
  | internal (text : String)
  deriving DecidableEq

def mStandard : UInt32 := 5
def nStandard : UInt32 := 9
def mSensitive : UInt32 := 9
def nSensitive : UInt32 := 15
def tMinSecs : Nat := 5
def tMaxSecs : Nat := 30

variable {W : Type}

/-- `REP_WEIGHTED_THRESHOLD`, the literal `0.6`. -/
def repWeightedThresholdPin [WeightArith W] : W := WeightArith.ratio 6 10

structure QuorumConfig (W : Type) where
  m : UInt32
  n : UInt32
  tMin : Duration
  tMax : Duration
  repWeightedThreshold : W

def QuorumConfig.standard [WeightArith W] : QuorumConfig W where
  m := mStandard
  n := nStandard
  tMin := fromSecs tMinSecs
  tMax := fromSecs tMaxSecs
  repWeightedThreshold := repWeightedThresholdPin

def QuorumConfig.sensitive [WeightArith W] : QuorumConfig W where
  m := mSensitive
  n := nSensitive
  tMin := fromSecs tMinSecs
  tMax := fromSecs tMaxSecs
  repWeightedThreshold := repWeightedThresholdPin

inductive QuorumDecision
  | stillOpen | agreed | disagreed | disputed | indeterminate
  deriving DecidableEq

structure FinalisedQuorum (W : Type) where
  decision : QuorumDecision
  outcome : JobOutcome W
  agreements : UInt32
  disagreements : UInt32
  abstentions : UInt32
  reputationWeighted : W

/-- One stored vote with the reputation it was weighted with. -/
structure StoredVerification where
  verification : JobVerification
  reputation : UInt32
  deriving DecidableEq

namespace StoredVerification

def verifier (s : StoredVerification) : PeerId := s.verification.verifier

def isAgreed (s : StoredVerification) : Bool :=
  match s.verification.verdict with
  | .agreed => true
  | _ => false

def isDisagreed (s : StoredVerification) : Bool :=
  match s.verification.verdict with
  | .disagreed _ => true
  | _ => false

def isAbstained (s : StoredVerification) : Bool :=
  match s.verification.verdict with
  | .abstained => true
  | _ => false

end StoredVerification

/-- One open quorum.  At most one stored vote per verifier. -/
structure Quorum (W : Type) where
  config : QuorumConfig W
  resultHash : ContentHash
  specHash : ContentHash
  startedAt : SystemTime
  byVerifier : Keyed StoredVerification.verifier

namespace Quorum

def new (config : QuorumConfig W) (specHash resultHash : ContentHash) (startedAt : SystemTime) :
    Quorum W :=
  { config, resultHash, specHash, startedAt, byVerifier := Keyed.empty }

/-- The stored votes, in the iteration order of the map. -/
def votes (q : Quorum W) : List StoredVerification := q.byVerifier.rows

def len (q : Quorum W) : Nat := q.votes.length

def isEmpty (q : Quorum W) : Bool := q.votes.isEmpty

/-! ## Adding a vote -/

/-- The quorum with one more vote under its verifier. -/
def store (q : Quorum W) (s : StoredVerification) : Quorum W :=
  { q with byVerifier := q.byVerifier.upsert s }

/-- Check the result hash, then the signature, then that the verifier has not
voted yet; only then store the vote. -/
def addVerification (x : Externals W) (q : Quorum W) (verification : JobVerification)
    (verifierReputation : UInt32) (verifierPubkey : VerifyingKey) :
    Except VerifyError Unit × Quorum W :=
  if verification.resultHash ≠ q.resultHash then
    (.error (.internal ("result_hash mismatch: quorum tracks " ++ q.resultHash.asHex ++
      ", verification carries " ++ verification.resultHash.asHex)), q)
  else
    match verification.verifySignature x verifierPubkey with
    | .error e => (.error (.internal ("bad signature on verification: " ++ e.display)), q)
    | .ok () =>
      if q.byVerifier.contains verification.verifier then
        (.error (.internal ("duplicate verification from verifier " ++
          x.displayPeer verification.verifier)), q)
      else
        (.ok (), q.store ⟨verification, verifierReputation⟩)

/-- Everything one call can do: fail and change nothing, or pass all three
checks and append exactly this vote. -/
theorem addVerification_cases (x : Externals W) (q : Quorum W) (v : JobVerification)
    (rep : UInt32) (key : VerifyingKey) :
    ((∃ e, (q.addVerification x v rep key).1 = .error e) ∧ (q.addVerification x v rep key).2 = q) ∨
    (q.addVerification x v rep key = (.ok (), q.store ⟨v, rep⟩) ∧ v.resultHash = q.resultHash ∧
      v.verifySignature x key = .ok () ∧ q.byVerifier.contains v.verifier = false) := by
  unfold addVerification
  by_cases hr : v.resultHash = q.resultHash
  · rw [if_neg (not_not.mpr hr)]
    cases hs : v.verifySignature x key with
    | error e => exact Or.inl ⟨⟨_, rfl⟩, rfl⟩
    | ok u =>
      cases hc : q.byVerifier.contains v.verifier with
      | true => exact Or.inl ⟨⟨_, rfl⟩, rfl⟩
      | false => exact Or.inr ⟨rfl, hr, rfl, rfl⟩
  · rw [if_pos hr]
    exact Or.inl ⟨⟨_, rfl⟩, rfl⟩

/-- A call that passes the three checks is accepted. -/
theorem addVerification_ok {x : Externals W} {q : Quorum W} {v : JobVerification} {rep : UInt32}
    {key : VerifyingKey} (hr : v.resultHash = q.resultHash)
    (hs : v.verifySignature x key = .ok ()) (hc : q.byVerifier.contains v.verifier = false) :
    q.addVerification x v rep key = (.ok (), q.store ⟨v, rep⟩) := by
  simp [addVerification, hr, hs, hc]

/-- A second vote of one verifier changes nothing. -/
theorem addVerification_dup {x : Externals W} {q : Quorum W} {v : JobVerification} {rep : UInt32}
    {key : VerifyingKey} (hc : q.byVerifier.contains v.verifier = true) :
    (q.addVerification x v rep key).2 = q := by
  rcases addVerification_cases x q v rep key with h | ⟨-, -, -, h⟩
  · exact h.2
  · rw [hc] at h
    cases h

/-- Besides the votes, no call changes anything. -/
theorem addVerification_frame (x : Externals W) (q : Quorum W) (v : JobVerification)
    (rep : UInt32) (key : VerifyingKey) :
    (q.addVerification x v rep key).2.config = q.config ∧
    (q.addVerification x v rep key).2.resultHash = q.resultHash ∧
    (q.addVerification x v rep key).2.specHash = q.specHash ∧
    (q.addVerification x v rep key).2.startedAt = q.startedAt := by
  rcases addVerification_cases x q v rep key with h | ⟨h, -⟩
  · rw [h.2]
    exact ⟨rfl, rfl, rfl, rfl⟩
  · rw [h]
    exact ⟨rfl, rfl, rfl, rfl⟩

theorem votes_store {q : Quorum W} {s : StoredVerification}
    (h : q.byVerifier.contains s.verifier = false) : (q.store s).votes = q.votes ++ [s] :=
  Keyed.rows_upsert_of_not_contains h

/-! ## The tally -/

/-- `u64::saturating_add`. -/
def saturatingAdd (a b : UInt64) : UInt64 := UInt64.ofNat (min (a.toNat + b.toNat) (2 ^ 64 - 1))

theorem toNat_saturatingAdd (a b : UInt64) :
    (saturatingAdd a b).toNat = min (a.toNat + b.toNat) (2 ^ 64 - 1) := by
  have h : min (a.toNat + b.toNat) (2 ^ 64 - 1) < 2 ^ 64 := by omega
  rw [saturatingAdd, UInt64.toNat_ofNat', Nat.mod_eq_of_lt h]

/-- The accumulators of the loop of `tally`. -/
structure Counters where
  agreed : UInt32 := 0
  disagreed : UInt32 := 0
  abstained : UInt32 := 0
  agreedRep : UInt64 := 0
  disagreedRep : UInt64 := 0
  deriving DecidableEq

/-- One iteration of the loop. -/
def Counters.add (t : Counters) (s : StoredVerification) : Counters :=
  match s.verification.verdict with
  | .agreed =>
    { t with agreed := t.agreed + 1,
             agreedRep := saturatingAdd t.agreedRep s.reputation.toUInt64 }
  | .disagreed _ =>
    { t with disagreed := t.disagreed + 1,
             disagreedRep := saturatingAdd t.disagreedRep s.reputation.toUInt64 }
  | .abstained => { t with abstained := t.abstained + 1 }

def countVotes (l : List StoredVerification) : Counters := l.foldl Counters.add {}

/-- The weighted score of the counters; `0.0` when no weight was cast. -/
def Counters.repWeighted [WeightArith W] (t : Counters) : W :=
  let totalRep := t.agreedRep + t.disagreedRep
  if totalRep = 0 then WeightArith.zero
  else WeightArith.ratio t.agreedRep.toNat totalRep.toNat

/-- `tally`: the three counts and the weighted score. -/
def tally [WeightArith W] (q : Quorum W) : UInt32 × UInt32 × UInt32 × W :=
  let t := countVotes q.votes
  (t.agreed, t.disagreed, t.abstained, t.repWeighted)

private theorem saturatingAdd_right_comm (a b c : UInt64) :
    saturatingAdd (saturatingAdd a b) c = saturatingAdd (saturatingAdd a c) b := by
  apply UInt64.toNat.inj
  simp only [toNat_saturatingAdd]
  omega

theorem Counters.add_right_comm (t : Counters) (s u : StoredVerification) :
    (t.add s).add u = (t.add u).add s := by
  simp only [Counters.add]
  cases s.verification.verdict <;> cases u.verification.verdict <;>
    simp only [saturatingAdd_right_comm _ s.reputation.toUInt64]

/-- The counters do not depend on the iteration order of the map. -/
theorem countVotes_perm {l₁ l₂ : List StoredVerification} (h : l₁.Perm l₂) :
    countVotes l₁ = countVotes l₂ := by
  have : RightCommutative Counters.add := ⟨Counters.add_right_comm⟩
  unfold countVotes
  exact h.foldl_eq _

/-- The reputation held by the votes on one side. -/
def repOf (p : StoredVerification → Bool) (l : List StoredVerification) : Nat :=
  ((l.filter p).map fun s => s.reputation.toNat).sum

/-- What the five accumulators hold after the votes `l`. -/
structure Counters.Counts (t : Counters) (l : List StoredVerification) : Prop where
  agreed : t.agreed.toNat = l.countP (·.isAgreed)
  disagreed : t.disagreed.toNat = l.countP (·.isDisagreed)
  abstained : t.abstained.toNat = l.countP (·.isAbstained)
  agreedRep : t.agreedRep.toNat = repOf (·.isAgreed) l
  disagreedRep : t.disagreedRep.toNat = repOf (·.isDisagreed) l

theorem repOf_cons (p : StoredVerification → Bool) (s : StoredVerification)
    (l : List StoredVerification) :
    repOf p (s :: l) = (if p s then s.reputation.toNat else 0) + repOf p l := by
  cases h : p s <;> simp [repOf, h]

theorem repOf_append (p : StoredVerification → Bool) (l : List StoredVerification)
    (s : StoredVerification) :
    repOf p (l ++ [s]) = repOf p l + if p s then s.reputation.toNat else 0 := by
  cases h : p s <;> simp [repOf, List.filter_append, h]

/-- Each vote carries less than `2^32`, so fewer than `2^32` votes stay far from
the saturation bound. -/
theorem repOf_le (p : StoredVerification → Bool) (l : List StoredVerification) :
    repOf p l ≤ l.length * (2 ^ 32 - 1) := by
  induction l with
  | nil => simp [repOf]
  | cons s l ih =>
    have hs : s.reputation.toNat < 2 ^ 32 := s.reputation.toNat_lt
    rw [repOf_cons, List.length_cons]
    split <;> omega

private theorem toNat_succ {n : UInt32} {k : Nat} (h : n.toNat = k) (hk : k + 1 < 2 ^ 32) :
    (n + 1).toNat = k + 1 := by
  rw [UInt32.toNat_add, h]
  exact Nat.mod_eq_of_lt hk

private theorem toNat_addRep {n : UInt64} {k : Nat} (r : UInt32) (h : n.toNat = k)
    (hk : k + r.toNat < 2 ^ 64) : (saturatingAdd n r.toUInt64).toNat = k + r.toNat := by
  rw [toNat_saturatingAdd, h, UInt32.toNat_toUInt64]
  omega

/-- One iteration keeps the accumulators exact as long as fewer than `2^32`
votes have been seen. -/
theorem Counters.Counts.step {t : Counters} {l : List StoredVerification} (h : t.Counts l)
    (s : StoredVerification) (hlen : l.length + 1 < 2 ^ 32) : (t.add s).Counts (l ++ [s]) := by
  have hs : s.reputation.toNat < 2 ^ 32 := s.reputation.toNat_lt
  have hrep : ∀ p, repOf p l + s.reputation.toNat < 2 ^ 64 := by
    intro p
    have := repOf_le p l
    omega
  have hcnt : ∀ p : StoredVerification → Bool, l.countP p + 1 < 2 ^ 32 := by
    intro p
    have := List.countP_le_length (p := p) (l := l)
    omega
  have hA := toNat_succ h.agreed (hcnt _)
  have hD := toNat_succ h.disagreed (hcnt _)
  have hB := toNat_succ h.abstained (hcnt _)
  have hAr := toNat_addRep s.reputation h.agreedRep (hrep _)
  have hDr := toNat_addRep s.reputation h.disagreedRep (hrep _)
  cases hv : s.verification.verdict <;> constructor <;>
    simp [Counters.add, hv, repOf_append, StoredVerification.isAgreed,
      StoredVerification.isDisagreed, StoredVerification.isAbstained, List.countP_append,
      hA, hD, hB, hAr, hDr, h.agreed, h.disagreed, h.abstained, h.agreedRep, h.disagreedRep]

/-- The loop computes plain counts and sums. -/
theorem countVotes_counts (l : List StoredVerification) (hlen : l.length < 2 ^ 32) :
    (countVotes l).Counts l := by
  induction l using List.reverseRecOn with
  | nil => exact ⟨rfl, rfl, rfl, rfl, rfl⟩
  | append_singleton l s ih =>
    rw [List.length_append, List.length_singleton] at hlen
    have hl := ih (by omega)
    have hstep : countVotes (l ++ [s]) = (countVotes l).add s := by
      simp [countVotes, List.foldl_append]
    rw [hstep]
    exact hl.step s hlen

/-- Every vote has exactly one of the three verdicts. -/
theorem countP_verdicts (l : List StoredVerification) :
    l.countP (·.isAgreed) + l.countP (·.isDisagreed) + l.countP (·.isAbstained) = l.length := by
  induction l with
  | nil => rfl
  | cons s l ih =>
    simp only [List.countP_cons, List.length_cons, StoredVerification.isAgreed,
      StoredVerification.isDisagreed, StoredVerification.isAbstained] at ih ⊢
    cases s.verification.verdict <;> simp <;> omega

/-! ## Finalising -/

/-- The decision ladder: head count and weight for either side, then the two
time bounds.  `none` keeps the window open. -/
def ladder [WeightArith W] (config : QuorumConfig W) (elapsed : Duration)
    (agreed disagreed : UInt32) (repWeighted : W) : Option QuorumDecision :=
  if elapsed < config.tMin then none
  else
    let m := config.m
    let thresh := config.repWeightedThreshold
    let agreedQuorum := agreed ≥ m ∧ WeightArith.ge repWeighted thresh
    let disagreedQuorum := disagreed ≥ m ∧ WeightArith.ge (WeightArith.oneSub repWeighted) thresh
    let halfM := max (m / 2) 1
    let split := agreed ≥ halfM ∧ disagreed ≥ halfM
    if agreedQuorum then some .agreed
    else if disagreedQuorum then some .disagreed
    else if elapsed ≥ config.tMax then
      if split then some .disputed else some .indeterminate
    else none

/-- The decision of `try_finalise` as of `now`. -/
def decision [WeightArith W] (q : Quorum W) (now : SystemTime) : Option QuorumDecision :=
  let (agreed, disagreed, _, repWeighted) := q.tally
  ladder q.config (elapsed now q.startedAt) agreed disagreed repWeighted

/-- The content hashes of the votes, sorted by their bytes, adjacent repeats
removed. -/
def verificationHashes (x : Externals W) (q : Quorum W) : List ContentHash :=
  (sortByKey ContentHash.key (q.votes.map fun s => s.verification.contentHash x)).destutter (· ≠ ·)

/-- `collect_disputers`: the verifiers of the smaller side, `Disagreed` on a tie. -/
def collectDisputers [WeightArith W] (q : Quorum W) : List PeerId :=
  let (agreed, disagreed, _, _) := q.tally
  let minorityIsDisagreed : Bool := disagreed ≤ agreed
  let isMinority (s : StoredVerification) : Bool :=
    match s.verification.verdict with
    | .agreed => !minorityIsDisagreed
    | .disagreed _ => minorityIsDisagreed
    | .abstained => false
  sortByKey PeerId.key ((q.votes.filter isMinority).map (·.verifier))

/-- The verdict a decision is published as. -/
def outcomeVerdict [WeightArith W] (q : Quorum W) : QuorumDecision → Option (OutcomeVerdict W)
  | .agreed | .disagreed =>
    let (agreed, disagreed, abstained, repWeighted) := q.tally
    some (.valid agreed disagreed abstained repWeighted)
  | .disputed => some (.disputed q.collectDisputers)
  | .indeterminate => some .indeterminate
  | .stillOpen => none

/-- `try_finalise` as of `now`; `nowUnix` is the clock reading the outcome is
stamped with. -/
def tryFinalise [WeightArith W] (x : Externals W) (q : Quorum W) (now : SystemTime)
    (nowUnix : UInt64) (observer : PeerId) (observerSigningKey : SigningKey) :
    Option (FinalisedQuorum W) := do
  let (agreed, disagreed, abstained, repWeighted) := q.tally
  let decision ← q.decision now
  let verdict ← q.outcomeVerdict decision
  let (outcome, _) := JobOutcome.newSignedAt x q.specHash q.resultHash (q.verificationHashes x)
    verdict nowUnix observer observerSigningKey
  return { decision, outcome, agreements := agreed, disagreements := disagreed,
           abstentions := abstained, reputationWeighted := repWeighted }

/-! ## Reading the ladder -/

section Ladder

variable [WeightArith W] {config : QuorumConfig W} {e : Duration} {a d : UInt32} {w : W}

theorem ladder_eq_agreed_iff :
    ladder config e a d w = some .agreed ↔
      config.tMin ≤ e ∧ config.m ≤ a ∧ WeightArith.ge w config.repWeightedThreshold = true := by
  unfold ladder
  split
  · next h => simp [Nat.not_le.mpr h]
  · next h =>
    dsimp only
    split
    · next h' => simp [Nat.not_lt.mp h, h'.1, h'.2]
    · next h' => grind

theorem ladder_eq_disagreed_iff :
    ladder config e a d w = some .disagreed ↔
      config.tMin ≤ e ∧ ¬ (config.m ≤ a ∧ WeightArith.ge w config.repWeightedThreshold = true) ∧
        config.m ≤ d ∧
        WeightArith.ge (WeightArith.oneSub w) config.repWeightedThreshold = true := by
  unfold ladder
  split
  · next h => simp [Nat.not_le.mpr h]
  · next h =>
    dsimp only
    split
    · next h' => simp [h'.1, h'.2]
    · next h' => grind

theorem ladder_isSome (hMin : config.tMin ≤ e) (hMax : config.tMax ≤ e) :
    (ladder config e a d w).isSome = true := by
  unfold ladder
  rw [if_neg (Nat.not_lt.mpr hMin)]
  dsimp only
  rw [if_pos (show e ≥ config.tMax from hMax)]
  grind

theorem ladder_before_tMin (h : e < config.tMin) : ladder config e a d w = none := if_pos h

theorem ladder_ne_stillOpen : ladder config e a d w ≠ some .stillOpen := by
  unfold ladder
  grind

end Ladder

section Finalise

variable [WeightArith W] {x : Externals W} {q q₁ q₂ : Quorum W} {now : SystemTime}
  {nowUnix : UInt64} {observer : PeerId} {key : SigningKey} {f : FinalisedQuorum W}

/-- What a finalised quorum is made of. -/
theorem tryFinalise_eq_some_iff :
    q.tryFinalise x now nowUnix observer key = some f ↔
      ∃ dec verdict, q.decision now = some dec ∧ q.outcomeVerdict dec = some verdict ∧
        f = { decision := dec
              outcome := (JobOutcome.newSignedAt x q.specHash q.resultHash
                (q.verificationHashes x) verdict nowUnix observer key).1
              agreements := q.tally.1
              disagreements := q.tally.2.1
              abstentions := q.tally.2.2.1
              reputationWeighted := q.tally.2.2.2 } := by
  simp only [tryFinalise, Option.bind_eq_bind, Option.bind_eq_some_iff, Option.pure_def,
    Option.some.injEq]
  constructor
  · rintro ⟨dec, hd, verdict, hv, rfl⟩
    exact ⟨dec, verdict, hd, hv, rfl⟩
  · rintro ⟨dec, verdict, hd, hv, rfl⟩
    exact ⟨dec, hd, verdict, hv, rfl⟩

theorem tryFinalise_decision (h : q.tryFinalise x now nowUnix observer key = some f) :
    q.decision now = some f.decision := by
  obtain ⟨dec, verdict, hd, -, rfl⟩ := tryFinalise_eq_some_iff.mp h
  exact hd

/-- A window that is decided is finalised: `StillOpen` is never the decision. -/
theorem tryFinalise_isSome :
    (q.tryFinalise x now nowUnix observer key).isSome = (q.decision now).isSome := by
  cases hd : q.decision now with
  | none => simp [tryFinalise, hd]
  | some dec =>
    have hne : dec ≠ .stillOpen := fun h => ladder_ne_stillOpen (h ▸ hd)
    cases dec <;> simp_all [tryFinalise, outcomeVerdict]

theorem tally_congr (h : q₁.votes.Perm q₂.votes) : q₁.tally = q₂.tally := by
  simp only [tally, countVotes_perm h]

theorem collectDisputers_congr (h : q₁.votes.Perm q₂.votes) :
    q₁.collectDisputers = q₂.collectDisputers := by
  simp only [collectDisputers, tally_congr h]
  exact sortByKey_perm PeerId.key_injective ((h.filter _).map _)

omit [WeightArith W] in
theorem verificationHashes_congr (h : q₁.votes.Perm q₂.votes) :
    q₁.verificationHashes x = q₂.verificationHashes x := by
  unfold verificationHashes
  rw [sortByKey_perm ContentHash.key_injective (h.map _)]

theorem outcomeVerdict_congr (h : q₁.votes.Perm q₂.votes) (dec : QuorumDecision) :
    q₁.outcomeVerdict dec = q₂.outcomeVerdict dec := by
  cases dec <;> simp only [outcomeVerdict, tally_congr h, collectDisputers_congr h]

theorem decision_congr (hc : q₁.config = q₂.config) (ht : q₁.startedAt = q₂.startedAt)
    (h : q₁.votes.Perm q₂.votes) : q₁.decision now = q₂.decision now := by
  simp only [decision, tally_congr h, hc, ht]

/-- Finalising depends on the votes only up to order, so not on the iteration
order of the hash map. -/
theorem tryFinalise_congr (hc : q₁.config = q₂.config) (ht : q₁.startedAt = q₂.startedAt)
    (hs : q₁.specHash = q₂.specHash) (hr : q₁.resultHash = q₂.resultHash)
    (h : q₁.votes.Perm q₂.votes) :
    q₁.tryFinalise x now nowUnix observer key = q₂.tryFinalise x now nowUnix observer key := by
  simp only [tryFinalise, tally_congr h, decision_congr hc ht h, outcomeVerdict_congr h,
    verificationHashes_congr h, hs, hr]

end Finalise

end Quorum

end Parseh.Verify
