import Parseh.Miner.Finalise

/-!
# Who is rewarded

A tick counts the votes of the quorum in memory but rewards the verifiers of the
votes in the store.  The store takes a vote before the quorum has looked for a
duplicate, keeps it when no quorum is open, and a quorum lost by the `Agreed`
side is published as `Valid` too.

* `matched_step`: while no verifier adds an `Agreed` vote to another vote of its
  own, and quorums are opened only where no `Agreed` vote is stored, stored and
  counted `Agreed` votes have the same verifiers;
* `rewards_exact`: in every run that also never closes a lost quorum over an
  `Agreed` vote, each tick rewards exactly the counted `Agreed` verifiers.
-/

namespace Parseh.Miner

open Parseh.Lib Parseh.Wire Parseh.Core Parseh.Shared Parseh.Verify

variable {W : Type}

/-! ## The stored votes -/

/-- The rows of the votes were written by `record_verification`. -/
def VotesWritten (x : Externals W) (s : SharedState) : Prop :=
  ∀ r ∈ s.verifications.rows, ∃ v, x.verificationCbor.decode r.verificationCbor = some v ∧
    r = SharedState.verificationRow x v r.observedAt

/-- The verifiers of the stored `Agreed` votes on a result. -/
def agreedStored (s : SharedState) (rh : ContentHash) : List PeerId :=
  (s.verifications.rows.filter fun r => r.resultHash = rh ∧ r.verdict = .agreed).map (·.verifier)

/-- The verifiers of the counted `Agreed` votes. -/
def agreedCounted (q : Quorum W) : List PeerId := (q.votes.filter (·.isAgreed)).map (·.verifier)

theorem label_eq_agreed {v : VerifierVerdict} : VerdictLabel.of v = .agreed ↔ v = .agreed := by
  cases v <;> simp [VerdictLabel.of]

theorem isAgreed_iff {sv : StoredVerification} :
    sv.isAgreed = true ↔ sv.verification.verdict = .agreed := by
  unfold StoredVerification.isAgreed
  cases sv.verification.verdict <;> simp

/-- Decoding rows as they were written gives back their columns. -/
theorem decoded_agreed (x : Externals W) (rows : List VerificationRow)
    (h : ∀ r ∈ rows, ∃ v, x.verificationCbor.decode r.verificationCbor = some v ∧
      r = SharedState.verificationRow x v r.observedAt) :
    ∃ vs : List JobVerification,
      rows.map (fun r => x.verificationCbor.decode r.verificationCbor) = vs.map some ∧
      (vs.filter fun v => v.verdict = .agreed).map (·.verifier) =
        (rows.filter fun r => r.verdict = .agreed).map (·.verifier) := by
  induction rows with
  | nil => exact ⟨[], rfl, rfl⟩
  | cons r rows ih =>
    obtain ⟨v, hdec, hrow⟩ := h r List.mem_cons_self
    obtain ⟨vs, hvs, heq⟩ := ih fun r' hr' => h r' (List.mem_cons_of_mem r hr')
    have hverdict : r.verdict = VerdictLabel.of v.verdict := congrArg VerificationRow.verdict hrow
    have hverifier : r.verifier = v.verifier := congrArg VerificationRow.verifier hrow
    refine ⟨v :: vs, by rw [List.map_cons, hdec, hvs, List.map_cons], ?_⟩
    by_cases ha : v.verdict = .agreed
    · simp [ha, hverdict, hverifier, heq, VerdictLabel.of]
    · have ha' : ¬ r.verdict = .agreed := by rwa [hverdict, label_eq_agreed]
      simp [ha, ha', heq]

/-- Over a store of written rows a `Valid` outcome rewards the verifiers of the
stored `Agreed` votes. -/
theorem rewardedVerifiers_perm {x : Externals W} {s : SharedState} (hw : VotesWritten x s)
    (rh : ContentHash) {o : JobOutcome W} (ho : OutcomeLabel.of o.verdict = .valid) :
    (rewardedVerifiers x s rh o).Perm (agreedStored s rh) := by
  have hperm := sortByKey_perm_self (fun r : VerificationRow => r.verifiedAt.toInt)
    (s.verifications.rows.filter (·.resultHash = rh))
  obtain ⟨vs, hvs, heq⟩ := decoded_agreed x (s.verificationRowsOf rh) fun r hr =>
    hw r (List.mem_filter.mp (hperm.mem_iff.mp hr)).1
  have hquery := SharedState.verificationsForResult_eq_ok_iff.mpr hvs
  cases hverd : o.verdict with
  | valid a d b w =>
    simp only [rewardedVerifiers, hverd, hquery, heq]
    refine ((hperm.filter _).map _).trans (List.Perm.of_eq ?_)
    rw [List.filter_filter, agreedStored]
    congr 2
    funext r
    simp [Bool.and_comm]
  | disputed ps => simp [hverd, OutcomeLabel.of] at ho
  | indeterminate => simp [hverd, OutcomeLabel.of] at ho

/-- Any other outcome rewards nobody. -/
theorem rewardedVerifiers_eq_nil {x : Externals W} {s : SharedState} {rh : ContentHash}
    {o : JobOutcome W} (ho : OutcomeLabel.of o.verdict ≠ .valid) :
    rewardedVerifiers x s rh o = [] := by
  cases hverd : o.verdict with
  | valid a d b w => simp [hverd, OutcomeLabel.of] at ho
  | disputed ps => simp only [rewardedVerifiers, hverd]
  | indeterminate => simp only [rewardedVerifiers, hverd]

/-- A stored vote adds its verifier to the `Agreed` ones of its own result. -/
theorem agreedStored_insert {x : Externals W} {s s' : SharedState} {v : JobVerification}
    {now : Int64}
    (hs : s'.verifications = s.verifications.insertOrIgnore (SharedState.verificationRow x v now))
    (hnew : s.verifications.contains (v.contentHash x) = false) (rh : ContentHash) :
    agreedStored s' rh = agreedStored s rh ++
      if v.resultHash = rh ∧ v.verdict = .agreed then [v.verifier] else [] := by
  have hrows : s'.verifications.rows =
      s.verifications.rows ++ [SharedState.verificationRow x v now] := by
    rw [hs]
    exact Keyed.rows_insertOrIgnore hnew
  have hlabel : (SharedState.verificationRow x v now).verdict = .agreed ↔ v.verdict = .agreed :=
    label_eq_agreed
  rw [agreedStored, hrows, List.filter_append, List.map_append, ← agreedStored]
  by_cases h : v.resultHash = rh ∧ v.verdict = .agreed
  · have hrow : (SharedState.verificationRow x v now).resultHash = rh ∧
        (SharedState.verificationRow x v now).verdict = .agreed := ⟨h.1, hlabel.mpr h.2⟩
    simp [hrow, h]
    rfl
  · have hrow : ¬ ((SharedState.verificationRow x v now).resultHash = rh ∧
        (SharedState.verificationRow x v now).verdict = .agreed) := by
      rw [hlabel]
      exact h
    simp only [List.filter_cons, List.filter_nil, hrow, h, decide_false, if_false,
      Bool.false_eq_true, List.map_nil]

/-- What a counted vote adds to the `Agreed` ones. -/
theorem agreedCounted_store {q : Quorum W} {sv : StoredVerification}
    (h : q.byVerifier.contains sv.verifier = false) :
    agreedCounted (q.store sv) = agreedCounted q ++
      if sv.verification.verdict = .agreed then [sv.verifier] else [] := by
  rw [agreedCounted, Quorum.votes_store h, List.filter_append, List.map_append, ← agreedCounted]
  by_cases ha : sv.verification.verdict = .agreed
  · simp [ha, isAgreed_iff.mpr ha]
  · have hf : sv.isAgreed = false := by rw [← Bool.not_eq_true, isAgreed_iff]; exact ha
    simp [ha, hf]

theorem contains_of_agreedCounted {q : Quorum W} {p : PeerId} (h : p ∈ agreedCounted q) :
    q.byVerifier.contains p = true := by
  obtain ⟨sv, hsv, rfl⟩ := List.mem_map.mp h
  exact Keyed.contains_of_mem (List.mem_filter.mp hsv).1

/-- A stored row with the encoding of a vote is the row of that vote. -/
theorem mem_agreedStored_of_row {x : Externals W} {s : SharedState} (hw : VotesWritten x s)
    {r : VerificationRow} (hr : r ∈ s.verifications.rows) {v : JobVerification}
    (hdec : x.verificationCbor.decode (x.verificationCbor.encode v) = some v)
    (hsame : r.verificationCbor = x.verificationCbor.encode v) (hv : v.verdict = .agreed) :
    v.verifier ∈ agreedStored s v.resultHash := by
  obtain ⟨u, hu, hrow⟩ := hw r hr
  rw [hsame, hdec] at hu
  cases hu
  refine List.mem_map.mpr ⟨r, List.mem_filter.mpr ⟨hr, ?_⟩, ?_⟩
  · rw [hrow]
    simp [SharedState.verificationRow, hv, VerdictLabel.of]
  · rw [hrow]
    rfl

/-! ## The condition -/

section Rewards

variable [WeightArith W]

/-- The `Disagreed` side has five votes and the weight for it, the `Agreed` side
has not, and the window may close. -/
def DisagreedWin (q : Quorum W) (now : SystemTime) : Prop :=
  fromSecs tMinSecs ≤ elapsed now q.startedAt ∧
  ¬ (mStandard ≤ q.tally.1 ∧ WeightArith.ge q.tally.2.2.2 (repWeightedThresholdPin : W) = true) ∧
  mStandard ≤ q.tally.2.1 ∧
    WeightArith.ge (WeightArith.oneSub q.tally.2.2.2) (repWeightedThresholdPin : W) = true

instance (q : Quorum W) (now : SystemTime) : Decidable (DisagreedWin q now) :=
  inferInstanceAs (Decidable (_ ∧ ¬ _ ∧ _ ∧ _))

/-- What a step must not do for the rewards to follow the count. -/
structure RewardGuard (c : Ctx W) (n : Node W) (s : Step W) : Prop where
  /-- A new `Agreed` vote on an open quorum comes from a verifier not counted yet. -/
  single : ∀ a ∈ admittedVote c n s, ∀ e ∈ n.quorums.entries.rows, e.1 = a.1.resultHash →
    a.1.verdict = .agreed → n.shared.verifications.contains (a.1.contentHash c.x) = false →
    e.2.quorum.byVerifier.contains a.1.verifier = false
  /-- A stored row with the hash of the vote is the row of the vote. -/
  collisionFree : ∀ a ∈ admittedVote c n s, ∀ r ∈ n.shared.verifications.rows,
    r.verificationHash = a.1.contentHash c.x →
    r.verificationCbor = c.x.verificationCbor.encode a.1
  /-- A quorum is opened only where no `Agreed` vote is stored. -/
  opened : ∀ rh ∈ openedHash c n s, agreedStored n.shared rh = []
  /-- At a tick no quorum the `Disagreed` side wins has counted an `Agreed` vote. -/
  unanimous : s.action = .finaliseTick → ∀ e ∈ n.quorums.entries.rows,
    DisagreedWin e.2.quorum s.clock.wall → agreedCounted e.2.quorum = []

omit [WeightArith W] in
instance Action.decidableIsTick : (a : Action W) → Decidable (a = .finaliseTick)
  | .finaliseTick => isTrue rfl
  | .gossip .. => isFalse nofun
  | .drain => isFalse nofun
  | .prune => isFalse nofun
  | .stateSyncResponse _ => isFalse nofun

instance (c : Ctx W) (n : Node W) (s : Step W) : Decidable (RewardGuard c n s) :=
  decidable_of_iff
    ((∀ a ∈ admittedVote c n s, ∀ e ∈ n.quorums.entries.rows, e.1 = a.1.resultHash →
      a.1.verdict = .agreed → n.shared.verifications.contains (a.1.contentHash c.x) = false →
      e.2.quorum.byVerifier.contains a.1.verifier = false) ∧
    (∀ a ∈ admittedVote c n s, ∀ r ∈ n.shared.verifications.rows,
      r.verificationHash = a.1.contentHash c.x →
      r.verificationCbor = c.x.verificationCbor.encode a.1) ∧
    (∀ rh ∈ openedHash c n s, agreedStored n.shared rh = []) ∧
    (s.action = .finaliseTick → ∀ e ∈ n.quorums.entries.rows,
      DisagreedWin e.2.quorum s.clock.wall → agreedCounted e.2.quorum = []))
    ⟨fun ⟨h₁, h₂, h₃, h₄⟩ => ⟨h₁, h₂, h₃, h₄⟩,
      fun ⟨h₁, h₂, h₃, h₄⟩ => ⟨h₁, h₂, h₃, h₄⟩⟩

/-! ## Stored and counted votes along a run -/

/-- Stored and counted `Agreed` votes of every open quorum have the same
verifiers. -/
structure Matched (c : Ctx W) (n : Node W) : Prop where
  openInv : OpenInv n
  written : VotesWritten c.x n.shared
  perm : ∀ rh oq, (rh, oq) ∈ n.quorums.entries.rows →
    (agreedStored n.shared rh).Perm (agreedCounted oq.quorum)

/-- Re-encoding a decoded vote decodes to the same vote. -/
def Reencodes (x : Externals W) : Prop :=
  ∀ b v, x.verificationCbor.decode b = some v →
    x.verificationCbor.decode (x.verificationCbor.encode v) = some v

omit [WeightArith W] in
theorem agreedStored_congr {s s' : SharedState} (h : s'.verifications = s.verifications)
    (rh : ContentHash) : agreedStored s' rh = agreedStored s rh := by
  rw [agreedStored, h, agreedStored]

omit [WeightArith W] in
theorem votesWritten_admitted {c : Ctx W} {n n₁ : Node W} {clock : Clock} {v : JobVerification}
    {key : VerifyingKey} (hw : VotesWritten c.x n.shared)
    (hv : AdmittedVote c clock n n₁ v key)
    (hdec : c.x.verificationCbor.decode (c.x.verificationCbor.encode v) = some v) :
    VotesWritten c.x n₁.shared := by
  intro r hr
  rw [hv.verifications] at hr
  rcases Keyed.mem_insertOrIgnore.mp hr with hr | ⟨-, rfl⟩
  · exact hw r hr
  · exact ⟨v, hdec, rfl⟩

section Slotted

variable {c : Ctx W} {n n₁ : Node W} {s : Step W} {v : JobVerification} {key : VerifyingKey}

omit [WeightArith W] in
/-- A vote that is stored already adds no row. -/
theorem agreedStored_replayed {clock : Clock} (hv : AdmittedVote c clock n n₁ v key)
    (hstored : n.shared.verifications.contains (v.contentHash c.x) = true) (rh : ContentHash) :
    agreedStored n₁.shared rh = agreedStored n.shared rh :=
  agreedStored_congr (hv.verifications.trans (Keyed.insertOrIgnore_of_contains hstored)) rh

omit [WeightArith W] in
/-- A vote adds no row to another result. -/
theorem agreedStored_other {clock : Clock} (hv : AdmittedVote c clock n n₁ v key)
    {rh : ContentHash} (hne : v.resultHash ≠ rh) :
    agreedStored n₁.shared rh = agreedStored n.shared rh := by
  cases hstored : n.shared.verifications.contains (v.contentHash c.x) with
  | true => exact agreedStored_replayed hv hstored rh
  | false =>
    rw [agreedStored_insert hv.verifications hstored, if_neg (fun h => hne h.1), List.append_nil]

variable {oq₀ : OpenQuorum W}

/-- A replayed vote: the store keeps its rows. -/
theorem perm_replayed (hm : Matched c n) (hg : RewardGuard c n s)
    (hadm : admittedVote c n s = some (v, key)) (hv : AdmittedVote c s.clock n n₁ v key)
    (hdec : c.x.verificationCbor.decode (c.x.verificationCbor.encode v) = some v)
    (hold : (v.resultHash, oq₀) ∈ n.quorums.entries.rows) (w : UInt32)
    (hstored : n.shared.verifications.contains (v.contentHash c.x) = true) :
    (agreedStored n₁.shared v.resultHash).Perm
      (agreedCounted (oq₀.quorum.addVerification c.x v w key).2) := by
  have hperm := hm.perm _ _ hold
  rw [agreedStored_replayed hv hstored]
  rcases Quorum.addVerification_cases c.x oq₀.quorum v w key with ⟨-, hq⟩ | ⟨hq, -, -, hnew⟩
  · rw [hq]
    exact hperm
  · rw [hq, agreedCounted_store hnew]
    by_cases ha : v.verdict = .agreed
    · -- then it was counted when it was stored, and is not added again
      obtain ⟨r, hr, hkey⟩ := Keyed.contains_iff.mp hstored
      have hin := mem_agreedStored_of_row hm.written hr hdec
        (hg.collisionFree (v, key) hadm r hr hkey) ha
      have hcounted := contains_of_agreedCounted (hperm.mem_iff.mp hin)
      exact absurd (hcounted.symm.trans hnew) (by decide)
    · rw [if_neg ha, List.append_nil]
      exact hperm

/-- A vote that is stored now. -/
theorem perm_stored (hm : Matched c n) (hg : RewardGuard c n s)
    (hadm : admittedVote c n s = some (v, key)) (hv : AdmittedVote c s.clock n n₁ v key)
    (hold : (v.resultHash, oq₀) ∈ n.quorums.entries.rows) (w : UInt32)
    (hstored : n.shared.verifications.contains (v.contentHash c.x) = false) :
    (agreedStored n₁.shared v.resultHash).Perm
      (agreedCounted (oq₀.quorum.addVerification c.x v w key).2) := by
  have hperm := hm.perm _ _ hold
  have hfiled := (hm.openInv _ _ hold).filed
  rw [agreedStored_insert hv.verifications hstored v.resultHash]
  rcases Quorum.addVerification_cases c.x oq₀.quorum v w key with ⟨⟨e, he⟩, hq⟩ | ⟨hq, -, -, hnew⟩
  · rw [hq]
    by_cases ha : v.verdict = .agreed
    · -- the checks pass, so the call cannot have failed
      have hnew := hg.single (v, key) hadm _ hold rfl ha hstored
      rw [Quorum.addVerification_ok hfiled.symm hv.signature hnew] at he
      cases he
    · rw [if_neg (fun h => ha h.2), List.append_nil]
      exact hperm
  · rw [hq, agreedCounted_store hnew]
    by_cases ha : v.verdict = .agreed
    · rw [if_pos ⟨rfl, ha⟩, if_pos ha]
      exact hperm.append_right _
    · rw [if_neg (fun h => ha h.2), if_neg ha]
      exact hperm.append_right _

/-- The vote offered to its own open quorum. -/
theorem perm_slotted (hm : Matched c n) (hg : RewardGuard c n s)
    (hadm : admittedVote c n s = some (v, key)) (hv : AdmittedVote c s.clock n n₁ v key)
    (hdec : c.x.verificationCbor.decode (c.x.verificationCbor.encode v) = some v)
    (hold : (v.resultHash, oq₀) ∈ n.quorums.entries.rows) (w : UInt32) :
    (agreedStored n₁.shared v.resultHash).Perm
      (agreedCounted (oq₀.quorum.addVerification c.x v w key).2) := by
  cases hstored : n.shared.verifications.contains (v.contentHash c.x) with
  | true => exact perm_replayed hm hg hadm hv hdec hold w hstored
  | false => exact perm_stored hm hg hadm hv hold w hstored

end Slotted

theorem executeSpec_verifications (c : Ctx W) (clock : Clock) (n : Node W) (spec : JobSpec) :
    (executeSpec c clock n spec).shared.verifications = n.shared.verifications := by
  simp only [executeSpec]
  cases hr : n.shared.recordResult c.x (ownResult c clock spec).1 (Clock.unixI64 clock) with
  | error e => rfl
  | ok s' => exact (SharedState.recordResult_ok hr).2.2.1

/-- A step that writes no vote keeps the match if it opens quorums only where no
`Agreed` vote is stored. -/
theorem matched_of_same_votes {c : Ctx W} {n n' : Node W} (hm : Matched c n) (hopen : OpenInv n')
    (hv : n'.shared.verifications = n.shared.verifications)
    (hq : ∀ rh oq, (rh, oq) ∈ n'.quorums.entries.rows →
      (rh, oq) ∈ n.quorums.entries.rows ∨
        (agreedStored n.shared rh = [] ∧ agreedCounted oq.quorum = [])) : Matched c n' := by
  refine ⟨hopen, ?_, ?_⟩
  · intro r hr
    rw [hv] at hr
    exact hm.written r hr
  · intro rh oq hmem
    rw [agreedStored_congr hv]
    rcases hq rh oq hmem with hold | ⟨hs, hc⟩
    · exact hm.perm rh oq hold
    · rw [hs, hc]

theorem matched_step {c : Ctx W} (hre : Reencodes c.x) (n : Node W) (s : Step W)
    (hg : RewardGuard c n s) (hm : Matched c n) : Matched c (step c n s) := by
  have hopen := openInv_step c n s hm.openInv
  have heff := step_effect c n s
  generalize step c n s = n' at hopen heff
  cases heff with
  | quiet h =>
    refine matched_of_same_votes hm hopen h.verifications fun rh oq hmem => Or.inl ?_
    rwa [h.quorums] at hmem
  | @opened n₁ r adm h =>
    refine matched_of_same_votes hm hopen h.verifications fun rh oq hmem => ?_
    rcases mem_openQuorum hmem with hold | ⟨hpeek, rfl, rfl⟩
    · exact Or.inl (h.quorums ▸ hold)
    · rw [h.quorums] at hpeek
      exact Or.inr ⟨hg.opened _ (by simp [openedHash, adm, hpeek]), rfl⟩
  | @executed n₁ spec exe h =>
    refine matched_of_same_votes hm hopen
      ((executeSpec_verifications c s.clock n₁ spec).trans h.verifications) fun rh oq hmem => ?_
    rcases mem_executeSpec hmem with ⟨hold, -⟩ | ⟨rfl, rfl⟩
    · exact Or.inl (h.quorums ▸ hold)
    · exact Or.inr ⟨hg.opened _ (by simp [openedHash, admittedResult_of_executed exe, exe]), rfl⟩
  | @voted n₁ v key adm hv =>
    obtain ⟨⟨body, hbody⟩, -, -⟩ := admittedVote_spec adm
    have hdec := hre body v hbody
    have hwritten : VotesWritten c.x n₁.shared := votesWritten_admitted hm.written hv hdec
    refine ⟨hopen, hwritten, ?_⟩
    intro rh oq hmem
    rcases mem_slotVote hmem with ⟨hold, hne⟩ | ⟨rfl, oq₀, hold, rfl⟩
    · -- another quorum: neither its votes nor the rows of its result change
      rw [hv.quorums] at hold
      have hsame := agreedStored_other hv hne
      exact hsame ▸ hm.perm rh oq hold
    · rw [hv.quorums] at hold
      exact perm_slotted hm hg adm hv hdec hold _
  | ticked =>
    obtain ⟨hq, hv, -, -, -⟩ := runFinaliseTick_blocks c s.clock n
    refine matched_of_same_votes hm hopen hv fun rh oq hmem => Or.inl ?_
    rw [hq] at hmem
    exact (mem_dropClosed.mp hmem).1

theorem matched_start (c : Ctx W) (clock : Clock) (listeners : List Multiaddr)
    {shared : SharedState} (hw : VotesWritten c.x shared) :
    Matched c (Node.start c clock listeners shared) :=
  ⟨openInv_start c clock listeners shared, hw, fun rh oq h => by cases h⟩

/-! ## Rewards at a tick -/

/-- The step extends the log by one block for each quorum it closes; the block
of a quorum decided `Agreed` has one entry for each counted `Agreed` verifier,
any other block is empty. -/
def RewardsExact (c : Ctx W) (n : Node W) (s : Step W) : Prop :=
  (step c n s).shared.reputationLog =
    n.shared.reputationLog ++ (closedBy c n s).flatMap (Closing.entries c) ∧
  ∀ cl ∈ closedBy c n s,
    (cl.finalised.decision = .agreed → cl.rewarded.Perm (agreedCounted cl.quorum)) ∧
    (cl.finalised.decision ≠ .agreed → cl.rewarded = [])

instance (c : Ctx W) (n : Node W) (s : Step W) : Decidable (RewardsExact c n s) :=
  inferInstanceAs (Decidable (_ = _ ∧ ∀ cl ∈ closedBy c n s, (_ → _) ∧ (_ → _)))

theorem log_step (c : Ctx W) (n : Node W) (s : Step W) :
    (step c n s).shared.reputationLog =
      n.shared.reputationLog ++ (closedBy c n s).flatMap (Closing.entries c) := by
  rcases history_step c n s with ⟨hc, hl, -⟩ | ⟨hact, htick⟩
  · rw [hl, closedBy, hc, List.drop_length, List.flatMap_nil, List.append_nil]
  · rw [closedBy_tick c n hact, htick]
    exact (runFinaliseTick_blocks c s.clock n).2.2.2.1

/-- The decision behind a closing, read on its quorum. -/
theorem rewarded_of_matched {c : Ctx W} {n : Node W} {s : Step W} (hg : RewardGuard c n s)
    (hm : Matched c n) {cl : Closing W} (h : cl ∈ closedBy c n s) :
    (cl.finalised.decision = .agreed → cl.rewarded.Perm (agreedCounted cl.quorum)) ∧
    (cl.finalised.decision ≠ .agreed → cl.rewarded = []) := by
  obtain ⟨hact, hnew⟩ := mem_closedBy h
  obtain ⟨oq, hmem, hclose, hq, hrew⟩ := mem_newClosings hnew
  obtain ⟨dec, verdict, hdec, hverd, hf⟩ :=
    Quorum.tryFinalise_eq_some_iff.mp (tryClose_eq_some hclose).2
  have hperm : OutcomeLabel.of cl.finalised.outcome.verdict = .valid →
      cl.rewarded.Perm (agreedCounted cl.quorum) := by
    intro hvalid
    rw [hrew, hq]
    exact (rewardedVerifiers_perm hm.written cl.resultHash hvalid).trans (hm.perm _ _ hmem)
  have hdecision : cl.finalised.decision = dec := by rw [hf]
  have hlabel : OutcomeLabel.of cl.finalised.outcome.verdict = OutcomeLabel.of verdict := by
    rw [hf]
    rfl
  have hnil : OutcomeLabel.of verdict ≠ .valid → cl.rewarded = [] := by
    intro hne
    rw [hrew]
    exact rewardedVerifiers_eq_nil (hlabel ▸ hne)
  rw [hdecision]
  rw [hlabel] at hperm
  cases dec with
  | agreed =>
    cases hverd
    exact ⟨fun _ => hperm rfl, fun hne => absurd rfl hne⟩
  | disagreed =>
    cases hverd
    refine ⟨nofun, fun _ => ?_⟩
    have hwin : DisagreedWin oq.quorum s.clock.wall := by
      have hread := Quorum.ladder_eq_disagreed_iff.mp hdec
      rw [(hm.openInv _ _ hmem).config] at hread
      exact hread
    rw [hq, hg.unanimous hact _ hmem hwin] at hperm
    exact List.perm_nil.mp (hperm rfl)
  | disputed =>
    cases hverd
    exact ⟨nofun, fun _ => hnil nofun⟩
  | indeterminate =>
    cases hverd
    exact ⟨nofun, fun _ => hnil nofun⟩
  | stillOpen => cases hverd

/-- **Reward exactness.**  In every run whose steps meet the condition, every
tick rewards the counted `Agreed` verifiers of the quorums it decides `Agreed`,
once each, and nobody else. -/
theorem rewards_exact (c : Ctx W) (clock : Clock) (listeners : List Multiaddr)
    (shared : SharedState) (as : List (Step W)) (hre : Reencodes c.x)
    (hw : VotesWritten c.x shared)
    (hg : Guarded (step c) (RewardGuard c) (Node.start c clock listeners shared) as) :
    Guarded (step c) (RewardsExact c) (Node.start c clock listeners shared) as :=
  hg.imp (matched_step hre) (fun n s h hm => ⟨log_step c n s, fun _ => rewarded_of_matched h hm⟩)
    (matched_start c clock listeners hw)

end Rewards

/-! ## Two runs of the small network -/

section Small

/-- Five zero-reputation peers disagree and a sixth agrees. -/
def lostRun : List (Step ℚ) :=
  smallTask false [1, 2, 11, 12, 13, 14, 15, 16] ++
    [11, 12, 13, 14, 15].map (fun n => atSecs 2 (hearVote false n)) ++
    [atSecs 2 (hearVote true 16), atSecs 7 .finaliseTick]

def lostExternals : Externals ℚ :=
  .small false [1, 2, 11, 12, 13, 14, 15, 16] [16] [11, 12, 13, 14, 15]

/-- The quorum is decided `Disagreed`, and the peer that agreed is rewarded. -/
theorem lost_side_rewarded :
    (run (step (smallCtx lostExternals)) (smallStart lostExternals) lostRun).closed.map
      (fun cl => (cl.finalised.decision, cl.rewarded)) = [(.disagreed, [peerOf 16])] ∧
    ¬ Guarded (step (smallCtx lostExternals)) (RewardsExact (smallCtx lostExternals))
      (smallStart lostExternals) lostRun := by
  decide +kernel

/-- Five peers of reputation 10 agree. -/
def wonRun : List (Step ℚ) :=
  smallTask false [1, 2, 11, 12, 13, 14, 15] ++
    [11, 12, 13, 14, 15].map (fun n => atSecs 2 (hearVote true n)) ++ [atSecs 7 .finaliseTick]

def wonExternals : Externals ℚ := .small false [1, 2, 11, 12, 13, 14, 15] [11, 12, 13, 14, 15] []

def reputedStore : SharedState :=
  { SharedState.empty with
    reputationLog := [11, 12, 13, 14, 15].map fun n =>
      { peer := peerOf n, delta := 10, reason := "seed", relatedHash := none, appliedAt := 0 } }

theorem reencodes_won : Reencodes wonExternals :=
  Codec.ofTable_reencodes (by decide)

/-- All five are rewarded. -/
theorem won_side_rewarded :
    (run (step (smallCtx wonExternals)) (Node.start (smallCtx wonExternals) ⟨0, 0⟩ [] reputedStore)
      wonRun).closed.map (fun cl => (cl.finalised.decision, cl.rewarded.length)) =
        [(.agreed, 5)] ∧
    Guarded (step (smallCtx wonExternals)) (RewardsExact (smallCtx wonExternals))
      (Node.start (smallCtx wonExternals) ⟨0, 0⟩ [] reputedStore) wonRun :=
  ⟨by decide +kernel,
    rewards_exact (smallCtx wonExternals) ⟨0, 0⟩ [] reputedStore wonRun reencodes_won
      (fun r h => by cases h) (by decide +kernel)⟩

end Small

end Parseh.Miner
