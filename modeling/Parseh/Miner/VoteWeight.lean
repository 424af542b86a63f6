import Parseh.Miner.Finalise

/-!
# The weight of a vote

`handle_inbound_verification` weights a vote with the reputation of its verifier.
On its way from the store the sum is tested for its sign, replaced by the floor
where it is negative, and cut to 32 bits.

* `reputation_of_addsVote`: the weight of every vote that the handler adds;
* `voteWeight_le_iff`: which pairs of reputations keep their order;
* `added_weight_le_iff` says it of the votes.
-/

namespace Parseh.Miner

open Parseh.Lib Parseh.Wire Parseh.Verify Parseh.Shared

variable {W : Type}

/-- The handler adds the vote to the open quorum of its result. -/
def AddsVote (c : Ctx W) (clock : Clock) (n : Node W) (body : Bytes) (s : StoredVerification) :
    Prop :=
  ∃ oq oq', n.quorums.peek s.verification.resultHash = some oq ∧
    (handleInboundVerification c clock n body).quorums.peek s.verification.resultHash = some oq' ∧
    oq'.quorum.votes = oq.quorum.votes ++ [s]

/-- Where the cast keeps the order of two reputations `a ≤ b`: a negative one weighs as
much as `10`, the others weigh what their low 32 bits say. -/
def WeightsInOrder (a b : Int) : Prop :=
  b < 0 ∨ (a < 0 ∧ 10 ≤ b % 2 ^ 32) ∨ (0 ≤ a ∧ a % 2 ^ 32 ≤ b % 2 ^ 32)

instance (a b : Int) : Decidable (WeightsInOrder a b) := by
  unfold WeightsInOrder
  infer_instance

theorem toNat_voteWeight (r : Int) :
    (voteWeight r).toNat = if r < 0 then 10 else r.toNat % 2 ^ 32 := by
  unfold voteWeight
  split
  · rfl
  · rw [UInt32.toNat_ofNat']

theorem voteWeight_le_iff {a b : Int} (h : a ≤ b) :
    voteWeight a ≤ voteWeight b ↔ WeightsInOrder a b := by
  rw [UInt32.le_iff_toNat_le, toNat_voteWeight, toNat_voteWeight]
  unfold WeightsInOrder
  split <;> split <;> omega

/-- The handler weights a vote with what the store says about its verifier. -/
theorem reputation_of_addsVote [WeightArith W] {c : Ctx W} {clock : Clock} {n : Node W}
    {body : Bytes} {s : StoredVerification} (h : AddsVote c clock n body s) :
    s.reputation = voteWeight (n.shared.reputationOf s.verifier) := by
  obtain ⟨oq, oq', hpeek, hpeek', hvotes⟩ := h
  have hstep : step c n ⟨clock, .gossip .verify ⟨none, tagJobVerification :: body⟩⟩ =
      handleInboundVerification c clock n body := by
    simp [step, handleVerifyMessage, tagJobVerification, tagJobResult]
  have hmem := LruCache.peek_eq_some_iff.mp hpeek'
  rw [← hstep] at hmem
  -- the entry of the result before the step is the one looked up
  have hold : ∀ oq₀, (s.verification.resultHash, oq₀) ∈ n.quorums.entries.rows → oq₀ = oq := by
    intro oq₀ h₀
    exact Option.some.inj ((LruCache.peek_eq_some_iff.mpr h₀).symm.trans hpeek)
  have hne : oq.quorum.votes ++ [s] ≠ oq.quorum.votes := by simp
  rcases mem_quorums_step hmem with h | ⟨-, specHash, rfl⟩ | ⟨v, key, oq₀, -, -, h, -, rfl⟩
  · obtain rfl := hold oq' h
    exact absurd hvotes.symm hne
  · have hnil : [] = oq.quorum.votes ++ [s] := hvotes
    simp at hnil
  · obtain rfl := hold oq₀ h
    rcases Quorum.addVerification_cases c.x oq₀.quorum v
      (voteWeight (n.shared.reputationOf v.verifier)) key with ⟨-, hsame⟩ | ⟨hadd, -, -, hnew⟩
    · rw [hsame] at hvotes
      exact absurd hvotes.symm hne
    · rw [hadd, Quorum.votes_store hnew, List.append_cancel_left_eq, List.cons.injEq] at hvotes
      rw [← hvotes.1]
      rfl

/-- For two votes that the handler adds, whatever deltas the stores have summed up: where
the verifier of the first has at most the reputation of the other's, the weights are in
this order if and only if the sign test and the cast keep it. -/
theorem added_weight_le_iff [WeightArith W] (c : Ctx W) (clock clock' : Clock) (n n' : Node W)
    (body body' : Bytes) (s s' : StoredVerification) (h : AddsVote c clock n body s)
    (h' : AddsVote c clock' n' body' s')
    (hle : n.shared.reputationOf s.verifier ≤ n'.shared.reputationOf s'.verifier) :
    s.reputation ≤ s'.reputation ↔
      WeightsInOrder (n.shared.reputationOf s.verifier) (n'.shared.reputationOf s'.verifier) := by
  rw [reputation_of_addsVote h, reputation_of_addsVote h']
  exact voteWeight_le_iff hle

/-! ## A debtor and a newcomer -/

/-- The node has heard the result; peer 3 has lost `debt` and peer 4 has earned
`credit`. -/
def debtorNode (debt credit : Int32) : Node ℚ :=
  run (step (smallCtx (.small false [1, 2, 3, 4] [3, 4] [])))
    (Node.start (smallCtx (.small false [1, 2, 3, 4] [3, 4] [])) ⟨0, 0⟩ []
      ((SharedState.empty.applyReputationDelta (peerOf 3) (-debt) "slashed" none 0
        ).applyReputationDelta (peerOf 4) credit "verifier_agreed" none 0))
    (smallTask false [1, 2, 3, 4])

/-- Does the handler add the vote of the peer with this weight? -/
def addsWith (n : Node ℚ) (peer : UInt8) (weight : UInt32) : Bool :=
  match n.quorums.peek (smallResultHash false),
    (handleInboundVerification (smallCtx (.small false [1, 2, 3, 4] [3, 4] []))
      ⟨fromSecs 2, fromSecs 2⟩ n (voteBytes true peer)).quorums.peek (smallResultHash false) with
  | some oq, some oq' =>
    oq'.quorum.votes = oq.quorum.votes ++ [⟨smallVote false true peer, weight⟩]
  | _, _ => false

theorem addsVote_of_addsWith {n : Node ℚ} {peer : UInt8} {weight : UInt32}
    (h : addsWith n peer weight = true) :
    AddsVote (smallCtx (.small false [1, 2, 3, 4] [3, 4] [])) ⟨fromSecs 2, fromSecs 2⟩ n
      (voteBytes true peer) ⟨smallVote false true peer, weight⟩ := by
  unfold addsWith at h
  split at h
  · next oq oq' hpeek hpeek' => exact ⟨oq, oq', hpeek, hpeek', of_decide_eq_true h⟩
  · cases h

/-- The peer that has lost one point weighs ten, the peer with none weighs nothing. -/
theorem debtor_outweighs_newcomer :
    AddsVote (smallCtx (.small false [1, 2, 3, 4] [3, 4] [])) ⟨fromSecs 2, fromSecs 2⟩
        (debtorNode 1 0) (voteBytes true 3) ⟨smallVote false true 3, 10⟩ ∧
      AddsVote (smallCtx (.small false [1, 2, 3, 4] [3, 4] [])) ⟨fromSecs 2, fromSecs 2⟩
        (debtorNode 1 0) (voteBytes true 4) ⟨smallVote false true 4, 0⟩ ∧
      (debtorNode 1 0).shared.reputationOf (smallVote false true 3).verifier ≤
        (debtorNode 1 0).shared.reputationOf (smallVote false true 4).verifier ∧
      ¬ (10 : UInt32) ≤ 0 :=
  ⟨addsVote_of_addsWith (by decide +kernel), addsVote_of_addsWith (by decide +kernel),
    by decide +kernel, by decide⟩

/-- Against a peer with twelve points the debtor's ten are in order. -/
theorem debtor_below_established :
    AddsVote (smallCtx (.small false [1, 2, 3, 4] [3, 4] [])) ⟨fromSecs 2, fromSecs 2⟩
        (debtorNode 1 12) (voteBytes true 3) ⟨smallVote false true 3, 10⟩ ∧
      AddsVote (smallCtx (.small false [1, 2, 3, 4] [3, 4] [])) ⟨fromSecs 2, fromSecs 2⟩
        (debtorNode 1 12) (voteBytes true 4) ⟨smallVote false true 4, 12⟩ ∧
      (10 : UInt32) ≤ 12 := by
  have hdebtor : AddsVote _ _ _ _ ⟨smallVote false true 3, 10⟩ :=
    addsVote_of_addsWith (n := debtorNode 1 12) (by decide +kernel)
  have hother : AddsVote _ _ _ _ ⟨smallVote false true 4, 12⟩ :=
    addsVote_of_addsWith (n := debtorNode 1 12) (by decide +kernel)
  refine ⟨hdebtor, hother, ?_⟩
  exact (added_weight_le_iff _ _ _ _ _ _ _ _ _ hdebtor hother (by decide +kernel)).mpr
    (by decide +kernel)

end Parseh.Miner
