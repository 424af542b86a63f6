import Parseh.Miner.Finalise

/-!
# What a finalised quorum counts

Which votes stand behind an outcome the node signs, over whole runs:

* `counted_votes_admitted`: every counted vote was admitted by a step of the run,
  for the result the quorum covers; the aggregator does not look at the executor
  or the submitter, so their votes stay out only if none is admitted;
* `sensitive_served_iff`: no quorum is ever opened with the sensitive
  configuration, so a sensitive task is served as promised exactly when no
  quorum of one is won under the standard bounds.
-/

namespace Parseh.Miner

open Parseh.Lib Parseh.Wire Parseh.Core Parseh.Shared Parseh.Verify

variable {W : Type} [WeightArith W]

/-! ## Where a counted vote comes from -/

omit [WeightArith W] in
/-- The vote is held by an open quorum of `rh`, or by one that was closed. -/
def Node.Holds (rh : ContentHash) (v : JobVerification) (n : Node W) : Prop :=
  (∃ oq, (rh, oq) ∈ n.quorums.entries.rows ∧ ∃ sv ∈ oq.quorum.votes, sv.verification = v) ∨
  (∃ cl ∈ n.closed, cl.resultHash = rh ∧ ∃ sv ∈ cl.quorum.votes, sv.verification = v)

omit [WeightArith W] in
/-- The step admits the vote: it is signed under the key the directory holds for
its verifier at that moment, and is about `rh`. -/
def AdmitsVote (c : Ctx W) (rh : ContentHash) (v : JobVerification) (n : Node W) (s : Step W) :
    Prop :=
  ∃ key, admittedVote c n s = some (v, key) ∧ v.resultHash = rh ∧
    n.peerRegistry.verifyingKey v.verifier = some key ∧ v.verifySignature c.x key = .ok ()

/-- A vote an open quorum holds after a step was held before, or is the one the
step admitted. -/
theorem open_votes_step {c : Ctx W} {n : Node W} {s : Step W} {rh : ContentHash}
    {oq : OpenQuorum W} (hmem : (rh, oq) ∈ (step c n s).quorums.entries.rows)
    {sv : StoredVerification} (hsv : sv ∈ oq.quorum.votes) :
    (∃ oq₀, (rh, oq₀) ∈ n.quorums.entries.rows ∧ sv ∈ oq₀.quorum.votes) ∨
      AdmitsVote c rh sv.verification n s := by
  rcases mem_quorums_step hmem with hold | ⟨-, sh, rfl⟩ | ⟨v, key, oq₀, hadm, hrh, hold, -, rfl⟩
  · exact Or.inl ⟨oq, hold, hsv⟩
  · -- a fresh quorum holds no vote
    cases hsv
  · rcases Quorum.addVerification_cases c.x oq₀.quorum v
      (voteWeight (n.shared.reputationOf v.verifier)) key with ⟨-, hsame⟩ | ⟨hadd, -, -, hnew⟩
    · rw [hsame] at hsv
      exact Or.inl ⟨oq₀, hold, hsv⟩
    · rw [hadd, Quorum.votes_store hnew, List.mem_append, List.mem_singleton] at hsv
      rcases hsv with hsv | rfl
      · exact Or.inl ⟨oq₀, hold, hsv⟩
      · obtain ⟨⟨-, -⟩, hkey, hsig⟩ := admittedVote_spec hadm
        exact Or.inr ⟨key, hadm, hrh, hkey, hsig⟩

theorem holds_step {c : Ctx W} {rh : ContentHash} {v : JobVerification} (n : Node W) (s : Step W)
    (h : (step c n s).Holds rh v) : n.Holds rh v ∨ AdmitsVote c rh v n s := by
  rcases h with ⟨oq, hmem, sv, hsv, rfl⟩ | ⟨cl, hcl, rfl, sv, hsv, rfl⟩
  · rcases open_votes_step hmem hsv with ⟨oq₀, hold, hin⟩ | hadm
    · exact Or.inl (Or.inl ⟨oq₀, hold, sv, hin, rfl⟩)
    · exact Or.inr hadm
  · rcases history_step c n s with ⟨hc, -, -⟩ | ⟨-, htick⟩
    · rw [hc] at hcl
      exact Or.inl (Or.inr ⟨cl, hcl, rfl, sv, hsv, rfl⟩)
    · rw [htick, (runFinaliseTick_blocks c s.clock n).2.2.1, List.mem_append] at hcl
      rcases hcl with hcl | hcl
      · exact Or.inl (Or.inr ⟨cl, hcl, rfl, sv, hsv, rfl⟩)
      · obtain ⟨oq, hmem, -, hq, -⟩ := mem_newClosings hcl
        rw [hq] at hsv
        exact Or.inl (Or.inl ⟨oq, hmem, sv, hsv, rfl⟩)

omit [WeightArith W] in
theorem not_holds_start (c : Ctx W) (clock : Clock) (listeners : List Multiaddr)
    (shared : SharedState) (rh : ContentHash) (v : JobVerification) :
    ¬ (Node.start c clock listeners shared).Holds rh v := by
  rintro (⟨oq, h, -⟩ | ⟨cl, h, -⟩) <;> cases h

/-- No admitted vote on the result comes from its executor or from the submitter
of the spec it answers: every verifier keeps rules 3a and 3b. -/
def NoSelfVote (c : Ctx W) (result : JobResult) (spec : JobSpec) (n : Node W) (s : Step W) :
    Prop :=
  ∀ a ∈ admittedVote c n s, a.1.resultHash = result.contentHash c.x →
    a.1.verifier ≠ result.executor ∧ a.1.verifier ≠ spec.submitter

instance (c : Ctx W) (result : JobResult) (spec : JobSpec) (n : Node W) (s : Step W) :
    Decidable (NoSelfVote c result spec n s) :=
  inferInstanceAs (Decidable (∀ a ∈ admittedVote c n s, _ → _))

omit [WeightArith W] in
theorem not_admitsVote_of_noSelfVote {c : Ctx W} {result : JobResult} {spec : JobSpec}
    {v : JobVerification} {n : Node W} {s : Step W}
    (h : AdmitsVote c (result.contentHash c.x) v n s) (hg : NoSelfVote c result spec n s) :
    v.verifier ≠ result.executor ∧ v.verifier ≠ spec.submitter := by
  obtain ⟨key, hadm, hrh, -, -⟩ := h
  exact hg (v, key) hadm hrh

/-- **Counted votes are admitted votes.**  Every vote counted in a quorum the
node closes was admitted by a step of the run, for that result and under the
registered key of its verifier.  Hence no vote of the executor or the submitter
is counted for a result on which none was admitted. -/
theorem counted_votes_admitted (c : Ctx W) (clock : Clock) (listeners : List Multiaddr)
    (shared : SharedState) (as : List (Step W)) :
    (∀ cl ∈ (run (step c) (Node.start c clock listeners shared) as).closed,
      ∀ sv ∈ cl.quorum.votes,
        Occurs (step c) (AdmitsVote c cl.resultHash sv.verification)
          (Node.start c clock listeners shared) as) ∧
    (∀ (result : JobResult) (spec : JobSpec),
      Guarded (step c) (NoSelfVote c result spec) (Node.start c clock listeners shared) as →
      ∀ cl ∈ (run (step c) (Node.start c clock listeners shared) as).closed,
        cl.resultHash = result.contentHash c.x →
        ∀ sv ∈ cl.quorum.votes, sv.verifier ≠ result.executor ∧ sv.verifier ≠ spec.submitter) := by
  have horigin : ∀ cl ∈ (run (step c) (Node.start c clock listeners shared) as).closed,
      ∀ sv ∈ cl.quorum.votes,
        Occurs (step c) (AdmitsVote c cl.resultHash sv.verification)
          (Node.start c clock listeners shared) as := by
    intro cl hcl sv hsv
    have hholds : (run (step c) (Node.start c clock listeners shared) as).Holds cl.resultHash
        sv.verification := Or.inr ⟨cl, hcl, rfl, sv, hsv, rfl⟩
    exact (run_origin holds_step hholds).resolve_left
      (not_holds_start c clock listeners shared _ _)
  refine ⟨horigin, ?_⟩
  intro result spec hg cl hcl hrh sv hsv
  have hocc := horigin cl hcl sv hsv
  rw [hrh] at hocc
  exact (hocc.of_guarded hg).elim fun n s h => not_admitsVote_of_noSelfVote h.1 h.2

/-- The executor and the submitter vote on the result before its window closes. -/
def selfVotedRun : List (Step ℚ) :=
  smallTask false [1, 2] ++
    [atSecs 2 (hearVote true 1), atSecs 2 (hearVote true 2), atSecs 40 .finaliseTick]

/-- Both votes are counted in the closed quorum. -/
theorem self_votes_counted :
    ∃ cl ∈ (run (step (smallCtx (.small false [1, 2] [1, 2] [])))
        (smallStart (.small false [1, 2] [1, 2] [])) selfVotedRun).closed,
      cl.resultHash = (smallResult false).contentHash (.small false [1, 2] [1, 2] []) ∧
      (∃ sv ∈ cl.quorum.votes, sv.verifier = (smallResult false).executor) ∧
      ∃ sv ∈ cl.quorum.votes, sv.verifier = (smallSpec false).submitter := by
  decide +kernel

/-- The vote of a third party is counted, and no other. -/
theorem third_party_vote_counted :
    (run (step (smallCtx (.small false [1, 2, 11] [11] [])))
      (smallStart (.small false [1, 2, 11] [11] []))
      (smallTask false [1, 2, 11] ++
        [atSecs 2 (hearVote true 11), atSecs 40 .finaliseTick])).closed.map
        (fun cl => (cl.resultHash, cl.quorum.len)) = [(smallResultHash false, 1)] ∧
    ∀ cl ∈ (run (step (smallCtx (.small false [1, 2, 11] [11] [])))
        (smallStart (.small false [1, 2, 11] [11] []))
        (smallTask false [1, 2, 11] ++
          [atSecs 2 (hearVote true 11), atSecs 40 .finaliseTick])).closed,
      cl.resultHash = (smallResult false).contentHash (.small false [1, 2, 11] [11] []) →
      ∀ sv ∈ cl.quorum.votes, sv.verifier ≠ peerOf 1 ∧ sv.verifier ≠ peerOf 2 :=
  ⟨by decide +kernel,
    (counted_votes_admitted (smallCtx (.small false [1, 2, 11] [11] [])) ⟨0, 0⟩ [] .empty
      (smallTask false [1, 2, 11] ++ [atSecs 2 (hearVote true 11), atSecs 40 .finaliseTick])).2
      (smallResult false) (smallSpec false) (by decide +kernel)⟩

/-! ## Sensitive tasks -/

omit [WeightArith W] in
/-- The number of counted votes on the side that won. -/
def Closing.winningVotes (cl : Closing W) : Nat :=
  match cl.finalised.decision with
  | .agreed => cl.quorum.votes.countP (·.isAgreed)
  | .disagreed => cl.quorum.votes.countP (·.isDisagreed)
  | _ => 0

/-- Every `Valid` outcome the step signs for a task stored as sensitive was
decided by the sensitive quorum, with its nine votes. -/
def SensitiveServed (c : Ctx W) (n : Node W) (s : Step W) : Prop :=
  ∀ cl ∈ closedBy c n s, ∀ t ∈ n.shared.tasks.rows,
    t.specHash = cl.finalised.outcome.specHash → t.sensitive = true →
    OutcomeLabel.of cl.finalised.outcome.verdict = .valid →
    cl.quorum.config.m = mSensitive ∧ 9 ≤ cl.winningVotes

instance (c : Ctx W) (n : Node W) (s : Step W) : Decidable (SensitiveServed c n s) :=
  inferInstanceAs (Decidable (∀ cl ∈ closedBy c n s, ∀ t ∈ n.shared.tasks.rows, _ → _ → _ → _))

/-- One side has five votes and the weight for it, and the window may close. -/
def StandardWin (q : Quorum W) (now : SystemTime) : Prop :=
  fromSecs tMinSecs ≤ elapsed now q.startedAt ∧
  ((mStandard ≤ q.tally.1 ∧ WeightArith.ge q.tally.2.2.2 (repWeightedThresholdPin : W) = true) ∨
    (mStandard ≤ q.tally.2.1 ∧
      WeightArith.ge (WeightArith.oneSub q.tally.2.2.2) (repWeightedThresholdPin : W) = true))

/-- At a tick, no open quorum of a task stored as sensitive has a standard win. -/
def NoSensitiveWin (n : Node W) (s : Step W) : Prop :=
  s.action = .finaliseTick → ∀ e ∈ n.quorums.entries.rows, ∀ t ∈ n.shared.tasks.rows,
    t.specHash = e.2.quorum.specHash → t.sensitive = true →
    ¬ StandardWin e.2.quorum s.clock.wall

/-- A standard quorum is decided for one side exactly on a standard win. -/
theorem decision_iff_standardWin {q : Quorum W} (hq : q.config = .standard) (now : SystemTime) :
    (q.decision now = some .agreed ∨ q.decision now = some .disagreed) ↔ StandardWin q now := by
  unfold Quorum.decision StandardWin
  rw [Quorum.ladder_eq_agreed_iff, Quorum.ladder_eq_disagreed_iff, hq]
  simp only [QuorumConfig.standard]
  constructor
  · rintro (⟨ht, h⟩ | ⟨ht, -, h⟩)
    · exact ⟨ht, Or.inl h⟩
    · exact ⟨ht, Or.inr h⟩
  · rintro ⟨ht, h⟩
    by_cases ha : mStandard ≤ q.tally.1 ∧
        WeightArith.ge q.tally.2.2.2 (repWeightedThresholdPin : W) = true
    · exact Or.inl ⟨ht, ha⟩
    · exact Or.inr ⟨ht, ha, h.resolve_left ha⟩

/-- `Valid` is published for a decision for one side, and for no other. -/
theorem outcomeVerdict_valid_iff {q : Quorum W} {dec : QuorumDecision} {verdict : OutcomeVerdict W}
    (h : q.outcomeVerdict dec = some verdict) :
    OutcomeLabel.of verdict = .valid ↔ dec = .agreed ∨ dec = .disagreed := by
  cases dec <;> cases h <;> simp [OutcomeLabel.of]

/-- What a tick closes as `Valid`: the open entries with a standard win. -/
theorem tick_valid_iff {c : Ctx W} {clock : Clock} {n : Node W} (hopen : OpenInv n)
    {cl : Closing W} (h : cl ∈ newClosings c clock n) :
    OutcomeLabel.of cl.finalised.outcome.verdict = .valid ↔ StandardWin cl.quorum clock.wall := by
  obtain ⟨oq, hmem, hclose, hq, -⟩ := mem_newClosings h
  obtain ⟨-, hfin⟩ := tryClose_eq_some hclose
  obtain ⟨dec, verdict, hdec, hverd, hf⟩ := Quorum.tryFinalise_eq_some_iff.mp hfin
  have hlabel : OutcomeLabel.of cl.finalised.outcome.verdict = OutcomeLabel.of verdict := by
    rw [hf]
    rfl
  rw [hlabel, outcomeVerdict_valid_iff hverd, hq,
    ← decision_iff_standardWin (hopen _ _ hmem).config clock.wall, hdec]
  simp

/-- An open entry with a standard win is closed by the tick. -/
theorem exists_newClosing {c : Ctx W} {clock : Clock} {n : Node W} (hopen : OpenInv n)
    {rh : ContentHash} {oq : OpenQuorum W} (hmem : (rh, oq) ∈ n.quorums.entries.rows)
    (hwin : StandardWin oq.quorum clock.wall) :
    ∃ cl ∈ newClosings c clock n, cl.quorum = oq.quorum ∧
      cl.finalised.outcome.specHash = oq.quorum.specHash := by
  obtain ⟨hpending, -, hconfig⟩ := hopen rh oq hmem
  have hsome : (oq.quorum.tryFinalise c.x clock.wall (unixNow clock.wall) c.localPeerId
      c.signingKey).isSome = true := by
    rw [Quorum.tryFinalise_isSome]
    rcases (decision_iff_standardWin hconfig clock.wall).mpr hwin with h | h <;> rw [h] <;> rfl
  obtain ⟨f, hf⟩ := Option.isSome_iff_exists.mp hsome
  have hclose : tryClose c clock oq = some f := by
    simp only [tryClose, hpending, Bool.false_eq_true, if_false]
    exact hf
  refine ⟨closingOf c clock n.shared (rh, oq.quorum, f), ?_, rfl, ?_⟩
  · refine List.mem_map_of_mem (List.mem_filterMap.mpr ⟨(rh, oq), hmem, ?_⟩)
    simp [hclose]
  · obtain ⟨dec, verdict, -, -, rfl⟩ := Quorum.tryFinalise_eq_some_iff.mp hf
    rfl

/-- One step serves sensitive tasks exactly when it meets no standard win of one. -/
theorem sensitiveServed_step_iff {c : Ctx W} {n : Node W} (hopen : OpenInv n) (s : Step W) :
    SensitiveServed c n s ↔ NoSensitiveWin n s := by
  constructor
  · intro h hact e he t ht hspec hsens hwin
    obtain ⟨cl, hcl, hq, hsh⟩ := exists_newClosing (c := c) hopen he hwin
    have hvalid := (tick_valid_iff hopen hcl).mpr (hq ▸ hwin)
    have hm := (h cl (closedBy_tick c n hact ▸ hcl) t ht (hspec.trans hsh.symm) hsens hvalid).1
    rw [hq, (hopen _ _ he).config] at hm
    exact absurd hm (show mStandard ≠ mSensitive by decide)
  · intro h cl hcl t ht hspec hsens hvalid
    obtain ⟨hact, hnew⟩ := mem_closedBy hcl
    obtain ⟨oq, hmem, -, hq, -⟩ := mem_newClosings hnew
    have hsh := (closingOk_of_open hopen hnew).outcome.2
    have hwin := (tick_valid_iff hopen hnew).mp hvalid
    exact absurd (hq ▸ hwin) (h hact _ hmem t ht (hspec.trans (hsh.trans (by rw [hq]))) hsens)

/-- **Sensitive tasks.**  A run serves every sensitive task with the sensitive
quorum exactly when none of its ticks meets a standard win of a sensitive task:
the flag of the spec is never looked up. -/
theorem sensitive_served_iff (c : Ctx W) (clock : Clock) (listeners : List Multiaddr)
    (shared : SharedState) (as : List (Step W)) :
    Guarded (step c) (SensitiveServed c) (Node.start c clock listeners shared) as ↔
      Guarded (step c) NoSensitiveWin (Node.start c clock listeners shared) as :=
  guarded_congr (openInv_step c) (fun _ s h => sensitiveServed_step_iff h s)
    (openInv_start c clock listeners shared) as

/-- Five zero-reputation peers disagree with the result of a sensitive task. -/
def sensitiveRun : List (Step ℚ) :=
  smallTask true [1, 2, 11, 12, 13, 14, 15] ++
    [11, 12, 13, 14, 15].map (fun n => atSecs 2 (hearVote false n)) ++ [atSecs 7 .finaliseTick]

/-- Their five votes close the quorum as `Valid`. -/
theorem sensitive_closed_by_five :
    ¬ Guarded (step (smallCtx (.small true [1, 2, 11, 12, 13, 14, 15] [] [11, 12, 13, 14, 15])))
      (SensitiveServed (smallCtx (.small true [1, 2, 11, 12, 13, 14, 15] []
        [11, 12, 13, 14, 15])))
      (smallStart (.small true [1, 2, 11, 12, 13, 14, 15] [] [11, 12, 13, 14, 15]))
      sensitiveRun := by
  decide +kernel

end Parseh.Miner
