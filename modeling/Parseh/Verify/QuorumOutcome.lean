import Parseh.Verify.QuorumRun

/-!
# What an outcome says

The outcome of `try_finalise` is a function of the set of stored votes: its lists
are sorted without repeats, and the order in which the hash map is iterated does
not show.

* `agreed_countVotes` and `disagreed_countVotes`: the counters are the head
  counts modulo `2^32`;
* `mem_collectDisputers`: the disputers are the verifiers of the smaller side;
* `tryFinalise_content`: all of it, of every quorum that is decided.
-/

namespace Parseh.Verify.Quorum

open Parseh.Lib Parseh.Wire

variable {W : Type}

/-! ## The counters -/

theorem countVotes_concat (l : List StoredVerification) (s : StoredVerification) :
    countVotes (l ++ [s]) = (countVotes l).add s := by
  simp [countVotes, List.foldl_append]

theorem agreed_countVotes (l : List StoredVerification) :
    (countVotes l).agreed = UInt32.ofNat (l.countP (·.isAgreed)) := by
  induction l using List.reverseRecOn with
  | nil => rfl
  | append_singleton l s ih =>
    rw [countVotes_concat, List.countP_append, UInt32.ofNat_add, ← ih]
    unfold Counters.add
    cases hv : s.verification.verdict <;> simp [StoredVerification.isAgreed, hv]

theorem disagreed_countVotes (l : List StoredVerification) :
    (countVotes l).disagreed = UInt32.ofNat (l.countP (·.isDisagreed)) := by
  induction l using List.reverseRecOn with
  | nil => rfl
  | append_singleton l s ih =>
    rw [countVotes_concat, List.countP_append, UInt32.ofNat_add, ← ih]
    unfold Counters.add
    cases hv : s.verification.verdict <;> simp [StoredVerification.isDisagreed, hv]

/-! ## The hashes -/

theorem pairwise_verificationHashes (x : Externals W) (q : Quorum W) :
    (q.verificationHashes x).Pairwise fun a b => a.key < b.key :=
  pairwise_lt_destutter ContentHash.key_injective (pairwise_sortByKey ..)

theorem mem_verificationHashes (x : Externals W) (q : Quorum W) (h : ContentHash) :
    h ∈ q.verificationHashes x ↔ ∃ s ∈ q.votes, s.verification.contentHash x = h := by
  rw [verificationHashes, mem_destutter_ne, mem_sortByKey, List.mem_map]

/-! ## The disputers -/

section Disputers

variable [WeightArith W]

/-- A vote on the smaller side; on a tie that is the `Disagreed` side. -/
def onSmallerSide (q : Quorum W) (s : StoredVerification) : Bool :=
  if q.tally.2.1 ≤ q.tally.1 then s.isDisagreed else s.isAgreed

theorem collectDisputers_eq (q : Quorum W) :
    q.collectDisputers =
      sortByKey PeerId.key ((q.votes.filter q.onSmallerSide).map (·.verifier)) := by
  unfold collectDisputers
  dsimp only
  congr 3
  funext s
  unfold onSmallerSide StoredVerification.isDisagreed StoredVerification.isAgreed
  by_cases h : q.tally.2.1 ≤ q.tally.1
  · cases s.verification.verdict <;> simp [h]
  · cases s.verification.verdict <;> simp [h]

theorem mem_collectDisputers (q : Quorum W) (p : PeerId) :
    p ∈ q.collectDisputers ↔ ∃ s ∈ q.votes, s.verifier = p ∧ q.onSmallerSide s = true := by
  rw [collectDisputers_eq, mem_sortByKey, List.mem_map]
  simp only [List.mem_filter]
  constructor
  · rintro ⟨s, ⟨hs, hside⟩, rfl⟩
    exact ⟨s, hs, rfl, hside⟩
  · rintro ⟨s, hs, rfl, hside⟩
    exact ⟨s, ⟨hs, hside⟩, rfl⟩

theorem pairwise_collectDisputers (q : Quorum W) :
    q.collectDisputers.Pairwise fun a b => a.key < b.key := by
  rw [collectDisputers_eq]
  refine pairwise_lt_sortByKey ?_ fun _ _ _ _ heq => PeerId.key_injective heq
  exact q.byVerifier.nodup.sublist (List.filter_sublist.map _)

/-- No verifier has two votes, so one that abstained is on no side. -/
theorem abstainer_not_mem (q : Quorum W) {s : StoredVerification} (hs : s ∈ q.votes)
    (h : s.isAbstained = true) : s.verifier ∉ q.collectDisputers := by
  rw [mem_collectDisputers]
  rintro ⟨s', hs', hid, hside⟩
  obtain rfl := List.inj_on_of_nodup_map q.byVerifier.nodup hs' hs hid
  unfold StoredVerification.isAbstained at h
  unfold onSmallerSide StoredVerification.isDisagreed StoredVerification.isAgreed at hside
  cases hv : s'.verification.verdict <;> simp_all

theorem length_collectDisputers (q : Quorum W) :
    q.collectDisputers.length =
      if q.tally.2.1 ≤ q.tally.1 then q.votes.countP (·.isDisagreed)
      else q.votes.countP (·.isAgreed) := by
  rw [collectDisputers_eq, (sortByKey_perm_self ..).length_eq, List.length_map,
    ← List.countP_eq_length_filter]
  unfold onSmallerSide
  split <;> rfl

theorem length_collectDisputers_mod (q : Quorum W) :
    q.collectDisputers.length % 2 ^ 32 = min q.tally.1.toNat q.tally.2.1.toNat := by
  have ha : q.tally.1.toNat = q.votes.countP (·.isAgreed) % 2 ^ 32 := by
    rw [← UInt32.toNat_ofNat', ← agreed_countVotes]
    rfl
  have hd : q.tally.2.1.toNat = q.votes.countP (·.isDisagreed) % 2 ^ 32 := by
    rw [← UInt32.toNat_ofNat', ← disagreed_countVotes]
    rfl
  rw [length_collectDisputers]
  simp only [UInt32.le_iff_toNat_le]
  split
  · next h => rw [← hd, min_eq_right h]
  · next h => rw [← ha, min_eq_left (Nat.le_of_not_le h)]

/-- Fewer than `2^32` votes are compared by their head counts. -/
theorem tally_le_iff {q : Quorum W} (hlen : q.len < 2 ^ 32) :
    q.tally.2.1 ≤ q.tally.1 ↔ q.votes.countP (·.isDisagreed) ≤ q.votes.countP (·.isAgreed) := by
  have hcnt := countVotes_counts q.votes hlen
  rw [UInt32.le_iff_toNat_le, ← hcnt.agreed, ← hcnt.disagreed]
  rfl

/-- What the list of disputers is. -/
structure IsDisputers (q : Quorum W) (disputers : List PeerId) : Prop where
  increasing : disputers.Pairwise fun a b => a.key < b.key
  smallerSide : ∀ p, p ∈ disputers ↔ ∃ s ∈ q.votes, s.verifier = p ∧ q.onSmallerSide s = true
  count : disputers.length % 2 ^ 32 = min q.tally.1.toNat q.tally.2.1.toNat
  noAbstainer : ∀ s ∈ q.votes, s.isAbstained = true → s.verifier ∉ disputers
  /-- Without overflow of the counters, the smaller side is the one with fewer votes. -/
  exact : q.len < 2 ^ 32 →
    disputers.length = min (q.votes.countP (·.isAgreed)) (q.votes.countP (·.isDisagreed)) ∧
    ∀ s, q.onSmallerSide s =
      if q.votes.countP (·.isDisagreed) ≤ q.votes.countP (·.isAgreed) then s.isDisagreed
      else s.isAgreed

theorem isDisputers_collectDisputers (q : Quorum W) : q.IsDisputers q.collectDisputers where
  increasing := pairwise_collectDisputers q
  smallerSide := mem_collectDisputers q
  count := length_collectDisputers_mod q
  noAbstainer _ hs h := abstainer_not_mem q hs h
  exact hlen := by
    refine ⟨?_, fun s => ?_⟩
    · rw [length_collectDisputers]
      simp only [tally_le_iff hlen]
      split <;> omega
    · unfold onSmallerSide
      simp only [tally_le_iff hlen]

end Disputers

/-! ## The outcome -/

section Outcome

variable [WeightArith W] {q : Quorum W}

/-- The verdict that belongs to a decision. -/
theorem outcomeVerdict_cases {d : QuorumDecision} {verdict : OutcomeVerdict W}
    (h : q.outcomeVerdict d = some verdict) :
    ((d = .agreed ∨ d = .disagreed) ∧
      verdict = .valid q.tally.1 q.tally.2.1 q.tally.2.2.1 q.tally.2.2.2) ∨
    (d = .disputed ∧ verdict = .disputed q.collectDisputers) ∨
    (d = .indeterminate ∧ verdict = .indeterminate) := by
  cases d <;> simp_all [outcomeVerdict]

/-- The outcome of every quorum that is decided, in any iteration order of its map. -/
theorem tryFinalise_content (x : Externals W) (q : Quorum W) (now : SystemTime) (nowUnix : UInt64)
    (observer : PeerId) (key : SigningKey) :
    (∀ rows : Keyed StoredVerification.verifier, rows.rows.Perm q.votes →
      tryFinalise x { q with byVerifier := rows } now nowUnix observer key =
        q.tryFinalise x now nowUnix observer key) ∧
    ∀ f, q.tryFinalise x now nowUnix observer key = some f →
      (f.outcome.verificationHashes.Pairwise fun a b => a.key < b.key) ∧
      (∀ h, h ∈ f.outcome.verificationHashes ↔
        ∃ s ∈ q.votes, s.verification.contentHash x = h) ∧
      (f.decision = .disputed →
        ∃ disputers, f.outcome.verdict = .disputed disputers ∧ q.IsDisputers disputers) ∧
      (f.decision = .agreed ∨ f.decision = .disagreed → f.outcome.verdict =
        .valid q.tally.1 q.tally.2.1 q.tally.2.2.1 q.tally.2.2.2) ∧
      (f.agreements, f.disagreements, f.abstentions, f.reputationWeighted) = q.tally := by
  refine ⟨fun rows hrows => tryFinalise_congr rfl rfl rfl rfl hrows, fun f hf => ?_⟩
  obtain ⟨d, verdict, -, hv, rfl⟩ := tryFinalise_eq_some_iff.mp hf
  refine ⟨pairwise_verificationHashes x q, mem_verificationHashes x q, fun hd => ?_,
    fun hd => ?_, rfl⟩
  · obtain ⟨h | h, -⟩ | ⟨-, rfl⟩ | ⟨h, -⟩ := outcomeVerdict_cases hv
    · cases h.symm.trans hd
    · cases h.symm.trans hd
    · exact ⟨_, rfl, isDisputers_collectDisputers q⟩
    · cases h.symm.trans hd
  · obtain ⟨-, rfl⟩ | ⟨h, -⟩ | ⟨h, -⟩ := outcomeVerdict_cases hv
    · rfl
    · rcases hd with hd | hd <;> cases h.symm.trans hd
    · rcases hd with hd | hd <;> cases h.symm.trans hd

end Outcome

end Parseh.Verify.Quorum
