import Mathlib.Data.Finset.Card
import Parseh.Chaos.Moves
import Parseh.Verify.QuorumOutcome

/-!
# The chaos mesh

A mesh is a node for every peer and the partition table.  One act lets a node take
one turn of its event loop, on whatever bytes the network hands it, or moves a peer
to another group; a run is any interleaving of acts.  Gossip is not kept in flight:
a message may be delivered late, twice, to some nodes only, or made up.

What a single node keeps through every turn is said here once: its tasks, ballots
and closed quorums fit together (`Upright`), and every vote it counts has the origin
that the deliveries have (`Sourced`).
-/

namespace Parseh.Lib.Keyed

variable {R K : Type} {key : R → K} [DecidableEq K]

/-- Rows with a property whose keys lie in a finite set are not more than the set. -/
theorem countP_le_card (t : Keyed key) {p : R → Bool} {s : Finset K}
    (h : ∀ r ∈ t.rows, p r = true → key r ∈ s) : t.rows.countP p ≤ s.card := by
  have hnodup : ((t.rows.filter p).map key).Nodup := t.nodup.sublist (List.filter_sublist.map key)
  have hsub : ((t.rows.filter p).map key).toFinset ⊆ s := by
    intro k hk
    obtain ⟨r, hr, rfl⟩ := List.mem_map.mp (List.mem_toFinset.mp hk)
    obtain ⟨hmem, hp⟩ := List.mem_filter.mp hr
    exact h r hmem hp
  calc t.rows.countP p
      = ((t.rows.filter p).map key).length := by rw [List.countP_eq_length_filter, List.length_map]
    _ = ((t.rows.filter p).map key).toFinset.card := (List.toFinset_card_of_nodup hnodup).symm
    _ ≤ s.card := Finset.card_le_card hsub

/-- More rows with a property than the set has members: one has its key outside. -/
theorem exists_key_notMem (t : Keyed key) {p : R → Bool} {s : Finset K}
    (h : s.card < t.rows.countP p) : ∃ r ∈ t.rows, p r = true ∧ key r ∉ s := by
  by_contra hall
  simp only [not_exists, not_and, not_not] at hall
  exact absurd (countP_le_card t hall) (Nat.not_le.mpr h)

end Parseh.Lib.Keyed

namespace Parseh.Chaos

open Parseh.Lib Parseh.Wire Parseh.Core Parseh.Shared Parseh.Verify Parseh.Miner

variable {W : Type}

/-- The parameters of a scenario: each peer's keys and mode. -/
structure MeshCtx (W : Type) where
  x : Externals W
  signingKey : PeerId → SigningKey
  verifyingKey : PeerId → VerifyingKey
  quorumConfig : QuorumConfig W
  malicious : PeerId → Option MaliciousMode

/-- The context the node of peer `i` runs in. -/
def MeshCtx.ctx (c : MeshCtx W) (i : PeerId) : Ctx W where
  x := c.x
  localPeerId := i
  signingKey := c.signingKey i
  verifyingKey := c.verifyingKey i
  quorumConfig := c.quorumConfig
  malicious := c.malicious i

structure Mesh (W : Type) where
  node : PeerId → NodeLoop W
  groupOf : PeerId → UInt8

inductive Act (W : Type)
  | turn (i : PeerId) (a : NodeLoop.Turn W)
  | setGroup (peer : PeerId) (group : UInt8)

/-- The vote an act delivers. -/
def Act.vote (x : Externals W) : Act W → Option JobVerification
  | .turn _ a => NodeLoop.carriedVote x a.event
  | .setGroup .. => none

/-- The advertisement an act delivers. -/
def Act.ad (x : Externals W) : Act W → Option CapabilityAdvertisement
  | .turn _ a => NodeLoop.carriedAd x a.event
  | .setGroup .. => none

namespace Mesh

/-- The mesh before any act: everyone in the default group. -/
def start (c : MeshCtx W) (clockOf : PeerId → Clock) : Mesh W where
  node i := NodeLoop.start (c.ctx i) (clockOf i)
  groupOf _ := defaultGroup

def step [WeightArith W] (c : MeshCtx W) (m : Mesh W) : Act W → Mesh W
  | .turn i a =>
    { m with node := fun j =>
        if j = i then (m.node i).step (c.ctx i) m.groupOf a else m.node j }
  | .setGroup peer group =>
    { m with groupOf := fun p => if p = peer then group else m.groupOf p }

variable [WeightArith W] (c : MeshCtx W) (m : Mesh W) (i : PeerId) (a : NodeLoop.Turn W)

theorem node_turn_self :
    (m.step c (.turn i a)).node i = (m.node i).step (c.ctx i) m.groupOf a := if_pos rfl

theorem node_turn_ne {j : PeerId} (h : j ≠ i) : (m.step c (.turn i a)).node j = m.node j :=
  if_neg h

variable {i} in
/-- A peer that takes no turn stays as it is. -/
theorem node_run_of_no_turn {acts : List (Act W)} (h : ∀ a, Act.turn i a ∉ acts) :
    (run (Mesh.step c) m acts).node i = m.node i := by
  induction acts generalizing m with
  | nil => rfl
  | cons act acts ih =>
    rw [run_cons, ih _ fun a ha => h a (List.mem_cons_of_mem _ ha)]
    cases act with
    | setGroup peer group => rfl
    | turn j a =>
      apply node_turn_ne
      rintro rfl
      exact h a List.mem_cons_self

end Mesh

namespace NodeLoop

/-! ## One node by itself -/

/-- A ballot is what the node's mode makes of a result of someone else, judged
against the spec the result names. -/
structure Judged (c : Ctx W) (b : Ballot) : Prop where
  verifier : b.vote.verifier = c.localPeerId
  notOwn : b.result.executor ≠ c.localPeerId
  about : b.vote.resultHash = b.result.contentHash c.x
  spec : b.spec.contentHash c.x = b.result.specHash
  verdict : ∃ coin, verdictOn c coin b.spec b.result = .ok b.vote.verdict

/-- A quorum that collects votes on `r`. -/
structure Opened (c : Ctx W) (q : Quorum W) (r : JobResult) : Prop where
  config : q.config = c.quorumConfig
  resultHash : q.resultHash = r.contentHash c.x
  about : ∀ s ∈ q.votes, s.verification.resultHash = q.resultHash

/-- A closed quorum was open on the observed result and had reached its decision. -/
structure Closed [WeightArith W] (c : Ctx W) (k : Closing W) : Prop where
  opened : ∃ r, k.result = some r ∧ r.specHash = k.spec.contentHash c.x ∧ Opened c k.quorum r
  decided : ∃ now, k.quorum.decision now = some k.finalised.decision

/-- What fits together in a node, whatever was delivered to it. -/
structure Upright [WeightArith W] (c : Ctx W) (n : NodeLoop W) : Prop where
  tasks : ∀ t ∈ n.tasks.rows, t.spec.contentHash c.x = t.specHash
  quorums : ∀ t ∈ n.tasks.rows, ∀ q, t.quorum = some q →
    ∃ r, t.observedResult = some r ∧ r.specHash = t.specHash ∧ Opened c q r
  ballots : ∀ b ∈ n.ballots, Judged c b
  closed : ∀ k ∈ n.closed, Closed c k

/-- Every vote in an open quorum, and in a quorum closed since `old`, has `P`. -/
structure Sourced (P : JobVerification → Prop) (old : List (Closing W)) (n : NodeLoop W) :
    Prop where
  opened : ∀ t ∈ n.tasks.rows, t.finalised = false → ∀ q, t.quorum = some q →
    ∀ s ∈ q.votes, P s.verification
  closed : ∀ k ∈ n.closed, k ∉ old → ∀ s ∈ k.quorum.votes, P s.verification

theorem Sourced.imp {P P' : JobVerification → Prop} {old : List (Closing W)} {n : NodeLoop W}
    (h : Sourced P old n) (himp : ∀ v, P v → P' v) : Sourced P' old n :=
  ⟨fun t ht hopen q hq s hs => himp _ (h.opened t ht hopen q hq s hs),
    fun k hk hnew s hs => himp _ (h.closed k hk hnew s hs)⟩

/-- The votes after one more was accepted. -/
theorem votes_of_add {x : Externals W} {q q' : Quorum W} {v : JobVerification} {rep : UInt32}
    {key : VerifyingKey} (h : q.addVerification x v rep key = (.ok (), q')) :
    q'.votes = q.votes ++ [⟨v, rep⟩] ∧ v.resultHash = q.resultHash ∧
      v.verifySignature x key = .ok () := by
  rcases Quorum.addVerification_cases x q v rep key with ⟨⟨e, he⟩, -⟩ | ⟨heq, hres, hsig, hnew⟩
  · rw [h] at he
    cases he
  · obtain rfl : q' = q.store ⟨v, rep⟩ := (Prod.mk.inj (h.symm.trans heq)).2
    exact ⟨Quorum.votes_store hnew, hres, hsig⟩

section

variable [WeightArith W] {c : Ctx W} {e : Event W} {n n' : NodeLoop W}

omit [WeightArith W] in
theorem Opened.add {q q' : Quorum W} {r : JobResult} {v : JobVerification} {rep : UInt32}
    {key : VerifyingKey} (h : Opened c q r) (hadd : q.addVerification c.x v rep key = (.ok (), q')) :
    Opened c q' r := by
  obtain ⟨hvotes, hres, -⟩ := votes_of_add hadd
  obtain ⟨hconfig, hhash, -, -⟩ := Quorum.addVerification_frame c.x q v rep key
  rw [hadd] at hconfig hhash
  refine ⟨hconfig.trans h.config, hhash.trans h.resultHash, fun s hs => ?_⟩
  rw [hhash]
  rw [hvotes, List.mem_append, List.mem_singleton] at hs
  rcases hs with hs | rfl
  · exact h.about s hs
  · exact hres

/-- One move keeps a node upright. -/
theorem Move.upright (h : Move c e n n') (hn : Upright c n) : Upright c n' := by
  refine ⟨fun t' ht' => ?_, fun t' ht' q hq => ?_, fun b hb => ?_, fun k hk => ?_⟩
  · cases h.row_origin ht' with
    | same t ht hhash hspec _ _ _ => rw [hhash, hspec, hn.tasks t ht]
    | fresh spec heq => rw [heq]; rfl
    | opened t result clock ht _ _ heq => rw [heq]; exact hn.tasks t ht
    | voted t q q' v key ht _ _ heq => rw [heq]; exact hn.tasks t ht.mem
  · cases h.row_origin ht' with
    | same t ht hhash _ hres hquorum _ =>
      rw [hhash, hres]
      exact hn.quorums t ht q (hquorum ▸ hq)
    | fresh spec heq =>
      rw [heq] at hq
      cases hq
    | opened t result clock ht _ hhash heq =>
      rw [heq] at hq ⊢
      obtain rfl := Option.some.inj hq
      exact ⟨result, rfl, hhash.symm, rfl, rfl, fun s hs => absurd hs List.not_mem_nil⟩
    | voted t q₀ q' v key ht _ hadd heq =>
      rw [heq] at hq ⊢
      obtain rfl := Option.some.inj hq
      obtain ⟨r, hr, hspec, hopened⟩ := hn.quorums t ht.mem q₀ ht.quorum
      exact ⟨r, hr, hspec, hopened.add hadd⟩
  · rcases h.ballot_origin hb with hold | ⟨clock, coin, verdict, t, ht, result, hres, hne, hspec,
      hverdict, rfl⟩
    · exact hn.ballots b hold
    · exact ⟨rfl, hne, rfl, (hn.tasks t ht).trans hspec, coin, hverdict⟩
  · rcases h.closing_origin hk with hold | ⟨t, ht, q, f, clock, -, hq, hf, rfl⟩
    · exact hn.closed k hold
    · obtain ⟨r, hr, hspec, hopened⟩ := hn.quorums t ht q hq
      exact ⟨⟨r, hr, hspec.trans (hn.tasks t ht).symm, hopened⟩, clock.wall,
        Quorum.tryFinalise_decision hf⟩

/-- One move keeps the votes sourced, if the vote it may add is. -/
theorem Move.sourced {P : JobVerification → Prop} {old : List (Closing W)} (h : Move c e n n')
    (hadd : ∀ v, Delivered c e n v ∨ Cast n v → P v) (hn : Sourced P old n) :
    Sourced P old n' := by
  refine ⟨fun t' ht' hopen q hq s hs => ?_, fun k hk hnew s hs => ?_⟩
  · cases h.row_origin ht' with
    | same t ht _ _ _ hquorum hflag => exact hn.opened t ht (hflag hopen) q (hquorum ▸ hq) s hs
    | fresh spec heq =>
      rw [heq] at hq
      cases hq
    | opened t result clock _ _ _ heq =>
      rw [heq] at hq
      obtain rfl := Option.some.inj hq
      exact absurd hs List.not_mem_nil
    | voted t q₀ q' v key ht hv hok heq =>
      rw [heq] at hq hopen
      obtain rfl := Option.some.inj hq
      rw [(votes_of_add hok).1, List.mem_append, List.mem_singleton] at hs
      rcases hs with hs | rfl
      · exact hn.opened t ht.mem hopen q₀ ht.quorum s hs
      · exact hadd v hv
  · rcases h.closing_origin hk with hold | ⟨t, ht, q, f, clock, hopen, hq, -, rfl⟩
    · exact hn.closed k hold hnew s hs
    · exact hn.opened t ht hopen q hq s hs

theorem Upright.step (groupOf : PeerId → UInt8) (h : Upright c n) (a : Turn W) :
    Upright c (n.step c groupOf a) :=
  (step_moves groupOf n a).invariant (fun _ _ hm hn => hm.upright hn) h

theorem upright_start (c : Ctx W) (clock : Clock) : Upright c (NodeLoop.start c clock) := by
  have htasks : (NodeLoop.start c clock).tasks.rows = [] := rfl
  have hballots : (NodeLoop.start c clock).ballots = [] := rfl
  have hclosed : (NodeLoop.start c clock).closed = [] := rfl
  refine ⟨?_, ?_, ?_, ?_⟩
  · simp [htasks]
  · simp [htasks]
  · simp [hballots]
  · simp [hclosed]

omit [WeightArith W] in
theorem sourced_start (c : Ctx W) (clock : Clock) (P : JobVerification → Prop) :
    Sourced P [] (NodeLoop.start c clock) := by
  have htasks : (NodeLoop.start c clock).tasks.rows = [] := rfl
  have hclosed : (NodeLoop.start c clock).closed = [] := rfl
  refine ⟨?_, ?_⟩
  · simp [htasks]
  · simp [hclosed]

end

/-! ## Reaching a decision -/

section

variable [WeightArith W] {q : Quorum W} {now : SystemTime}

omit [WeightArith W] in
theorem le_countP_of_le_ofNat {m : UInt32} {k : Nat} (h : m ≤ UInt32.ofNat k) : m.toNat ≤ k := by
  have hle : m.toNat ≤ (UInt32.ofNat k).toNat := h
  have hmod : (UInt32.ofNat k).toNat ≤ k := by
    rw [UInt32.toNat_ofNat']
    exact Nat.mod_le _ _
  exact hle.trans hmod

/-- An `Agreed` decision has its agreeing votes, a `Disagreed` one its opposing ones. -/
theorem votes_of_decision :
    (q.decision now = some .agreed → q.config.m.toNat ≤ q.votes.countP (·.isAgreed)) ∧
    (q.decision now = some .disagreed → q.config.m.toNat ≤ q.votes.countP (·.isDisagreed)) := by
  constructor
  · intro h
    have hm := (Quorum.ladder_eq_agreed_iff.mp h).2.1
    have hagreed : q.tally.1 = (Quorum.countVotes q.votes).agreed := rfl
    rw [Quorum.agreed_countVotes] at hagreed
    exact le_countP_of_le_ofNat (hagreed ▸ hm)
  · intro h
    have hm := (Quorum.ladder_eq_disagreed_iff.mp h).2.2.1
    have hdisagreed : q.tally.2.1 = (Quorum.countVotes q.votes).disagreed := rfl
    rw [Quorum.disagreed_countVotes] at hdisagreed
    exact le_countP_of_le_ofNat (hdisagreed ▸ hm)

end

end NodeLoop

end Parseh.Chaos
