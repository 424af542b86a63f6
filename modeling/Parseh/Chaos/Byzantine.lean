import Mathlib.Data.Set.Function
import Parseh.Chaos.Mesh

/-!
# Safety against malicious verifiers

Up to `m - 1` peers may do anything: lie in their votes, equivocate, flood, never
answer.  `byzantine_safety` shows that no node of the mesh, in any interleaving,
closes a quorum as `Agreed` on a payload that is not what the spec computes, or as
`Disagreed` on one that is.

Two things about the network are assumed (`Authentic`): nobody signs for an honest
peer, and no advertisement gives an honest peer another key.  The second is not
checked anywhere in the program, which takes the key of any advertisement.
-/

namespace Parseh.Chaos

open Parseh.Lib Parseh.Wire Parseh.Core Parseh.Shared Parseh.Verify Parseh.Miner NodeLoop

variable {W : Type}

/-- The node signed what the vote says. -/
def NodeLoop.Signed (n : NodeLoop W) (v : JobVerification) : Prop :=
  ∃ b ∈ n.ballots, { b.vote with signature := [] } = { v with signature := [] }

theorem NodeLoop.Signed.mono {n n' : NodeLoop W} {v : JobVerification} (h : n.Signed v)
    (hsub : n.ballots ⊆ n'.ballots) : n'.Signed v := by
  obtain ⟨b, hb, heq⟩ := h
  exact ⟨b, hsub hb, heq⟩

theorem NodeLoop.Cast.signed {n : NodeLoop W} {v : JobVerification} (h : Cast n v) : n.Signed v := by
  obtain ⟨b, hb, rfl⟩ := h
  exact ⟨b, hb, rfl⟩

/-- What the network cannot do to peers outside `byz`. -/
structure Authentic (c : MeshCtx W) (byz : Finset PeerId) (m : Mesh W) (act : Act W) : Prop where
  votes : ∀ v ∈ act.vote c.x, v.verifier ∉ byz →
    v.verifySignature c.x (c.verifyingKey v.verifier) = .ok () → (m.node v.verifier).Signed v
  keys : ∀ ad ∈ act.ad c.x, ad.peerId ∉ byz →
    ∀ key ∈ ad.verifyingKey c.x, key = c.verifyingKey ad.peerId

instance (n : NodeLoop W) (v : JobVerification) : Decidable (n.Signed v) :=
  List.decidableBEx _ _

instance (c : MeshCtx W) (byz : Finset PeerId) (m : Mesh W) (act : Act W) :
    Decidable (Authentic c byz m act) :=
  decidable_of_iff ((∀ v ∈ act.vote c.x, v.verifier ∉ byz →
      v.verifySignature c.x (c.verifyingKey v.verifier) = .ok () → (m.node v.verifier).Signed v) ∧
    ∀ ad ∈ act.ad c.x, ad.peerId ∉ byz →
      ∀ key ∈ ad.verifyingKey c.x, key = c.verifyingKey ad.peerId)
    ⟨fun h => ⟨h.1, h.2⟩, fun h => ⟨h.votes, h.keys⟩⟩

/-! ## The invariant -/

/-- Registries name honest peers by their keys. -/
def KeysBound (c : MeshCtx W) (byz : Finset PeerId) (n : NodeLoop W) : Prop :=
  ∀ p ∉ byz, ∀ key, n.registry.verifyingKey p = some key → key = c.verifyingKey p

/-- A vote counted for an honest peer was signed by it. -/
def Mesh.Backs (m : Mesh W) (byz : Finset PeerId) (v : JobVerification) : Prop :=
  v.verifier ∉ byz → (m.node v.verifier).Signed v

structure Safe [WeightArith W] (c : MeshCtx W) (byz : Finset PeerId) (m : Mesh W) : Prop where
  upright : ∀ i, Upright (c.ctx i) (m.node i)
  keys : ∀ i, KeysBound c byz (m.node i)
  votes : ∀ i, Sourced (m.Backs byz) [] (m.node i)

/-- The invariant of node `i` within a turn that started in the mesh `m`: a vote may
also be backed by a ballot of this very turn. -/
structure Midway [WeightArith W] (c : MeshCtx W) (byz : Finset PeerId) (m : Mesh W) (i : PeerId)
    (n : NodeLoop W) : Prop where
  upright : Upright (c.ctx i) n
  keys : KeysBound c byz n
  votes : Sourced (fun v => m.Backs byz v ∨ v.verifier = i ∧ n.Signed v) [] n

section Turn

variable [WeightArith W] {c : MeshCtx W} {byz : Finset PeerId} {m : Mesh W} {i : PeerId}
  {a : Turn W} {n n' : NodeLoop W}

theorem KeysBound.move (hauth : Authentic c byz m (.turn i a)) (hm : Move (c.ctx i) a.event n n')
    (h : KeysBound c byz n) : KeysBound c byz n' := by
  intro p hp key hkey
  rcases hm.registry_cases with heq | ⟨ad, had, heq⟩
  · exact h p hp key (heq ▸ hkey)
  · rw [heq, PeerRegistry.verifyingKey_upsert] at hkey
    split at hkey
    · next hpeer =>
      subst hpeer
      rcases Option.or_eq_some_iff.mp hkey with hcarried | ⟨-, hold⟩
      · exact hauth.keys ad (Option.mem_def.mpr had) hp key hcarried
      · exact h ad.peerId hp key hold
    · exact h p hp key hkey

omit [WeightArith W] in
/-- A vote that comes in was signed by its verifier, if that is honest. -/
theorem backs_of_delivered (hauth : Authentic c byz m (.turn i a)) (hkeys : KeysBound c byz n)
    {v : JobVerification} (hv : Delivered (c.ctx i) a.event n v) : m.Backs byz v := by
  intro hp
  obtain ⟨key, hkey, hsig⟩ := hv.signed
  rw [hkeys v.verifier hp key hkey] at hsig
  exact hauth.votes v (Option.mem_def.mpr hv.carried) hp hsig

theorem Midway.move (hauth : Authentic c byz m (.turn i a)) (hm : Move (c.ctx i) a.event n n')
    (h : Midway c byz m i n) : Midway c byz m i n' := by
  refine ⟨hm.upright h.upright, h.keys.move hauth hm, ?_⟩
  apply hm.sourced
  · rintro v (hv | hv)
    · exact Or.inl (backs_of_delivered hauth h.keys hv)
    · obtain ⟨b, hb, rfl⟩ := hv
      exact Or.inr ⟨(h.upright.ballots b hb).verifier, b, hm.ballots_subset hb, rfl⟩
  · apply h.votes.imp
    rintro v (hv | ⟨hi, hv⟩)
    · exact Or.inl hv
    · exact Or.inr ⟨hi, hv.mono hm.ballots_subset⟩

end Turn

section Run

variable [WeightArith W] {c : MeshCtx W} {byz : Finset PeerId} {m : Mesh W}

theorem ballots_subset_step (m : Mesh W) (act : Act W) (p : PeerId) :
    (m.node p).ballots ⊆ ((m.step c act).node p).ballots := by
  cases act with
  | setGroup peer group => exact List.Subset.refl _
  | turn i a =>
    by_cases hp : p = i
    · subst hp
      rw [Mesh.node_turn_self]
      exact Moves.ballots_subset (step_moves m.groupOf (m.node p) a)
    · rw [Mesh.node_turn_ne c m i a hp]
      exact List.Subset.refl _

theorem backs_step {v : JobVerification} (h : m.Backs byz v) (act : Act W) :
    (m.step c act).Backs byz v :=
  fun hp => (h hp).mono (ballots_subset_step m act v.verifier)

/-- Every authentic act keeps the mesh safe. -/
theorem Safe.step {act : Act W} (hauth : Authentic c byz m act) (h : Safe c byz m) :
    Safe c byz (m.step c act) := by
  cases act with
  | setGroup peer group =>
    exact ⟨h.upright, h.keys, fun i => (h.votes i).imp fun v hv => backs_step hv _⟩
  | turn i a =>
    have hmid : Midway c byz m i ((m.node i).step (c.ctx i) m.groupOf a) := by
      refine (step_moves m.groupOf (m.node i) a).invariant (fun _ _ hm hn => hn.move hauth hm) ?_
      exact ⟨h.upright i, h.keys i, (h.votes i).imp fun v hv => Or.inl hv⟩
    have hself := Mesh.node_turn_self c m i a
    refine ⟨fun j => ?_, fun j => ?_, fun j => ?_⟩ <;> by_cases hj : j = i
    · rw [hj, hself]
      exact hmid.upright
    · rw [Mesh.node_turn_ne c m i a hj]
      exact h.upright j
    · rw [hj, hself]
      exact hmid.keys
    · rw [Mesh.node_turn_ne c m i a hj]
      exact h.keys j
    · rw [hj, hself]
      refine hmid.votes.imp ?_
      rintro v (hv | ⟨hi, hv⟩)
      · exact backs_step hv _
      · intro _
        rw [hi, hself]
        exact hv
    · rw [Mesh.node_turn_ne c m i a hj]
      exact (h.votes j).imp fun v hv => backs_step hv _

theorem safe_start (c : MeshCtx W) (byz : Finset PeerId) (clockOf : PeerId → Clock) :
    Safe c byz (Mesh.start c clockOf) := by
  refine ⟨fun i => upright_start (c.ctx i) (clockOf i), fun i p hp key hkey => ?_,
    fun i => sourced_start (c.ctx i) (clockOf i) _⟩
  -- a fresh registry knows its own node only
  have hreg : ((Mesh.start c clockOf).node i).registry =
      PeerRegistry.new.recordIdentity
        { peerId := i
          verifyingKey := c.verifyingKey i
          reachableAddrs := []
          firstSeen := unixNow (clockOf i).wall
          lastSeen := unixNow (clockOf i).wall
          readiness := .initialised } := rfl
  rw [hreg, PeerRegistry.verifyingKey_recordIdentity] at hkey
  split at hkey
  · next hi =>
    obtain rfl := Option.some.inj hkey
    exact congrArg c.verifyingKey hi
  · cases hkey

end Run

/-! ## Honest verdicts -/

/-- An honest node agrees exactly with the payload it computes. -/
theorem honestVerdict_sound {x : Externals W} {spec : JobSpec} {result : JobResult}
    {verdict : VerifierVerdict} (h : honestVerdict x spec result = .ok verdict) :
    (verdict = .agreed → result.resultPayload = buildExecutorResult x spec) ∧
    (∀ evidence, verdict = .disagreed evidence →
      result.resultPayload ≠ buildExecutorResult x spec) := by
  unfold honestVerdict deterministicMethod at h
  by_cases hseed : seedMissing spec
  · rw [if_pos hseed] at h
    cases h
  · rw [if_neg hseed] at h
    have hexec : chaosExecutor x spec = .ok (buildExecutorResult x spec) := rfl
    rw [hexec] at h
    by_cases heq : buildExecutorResult x spec = result.resultPayload
    · simp only [bind, Except.bind, if_pos heq] at h
      obtain rfl := Except.ok.inj h
      exact ⟨fun _ => heq.symm, fun _ => nofun⟩
    · simp only [bind, Except.bind, if_neg heq] at h
      obtain rfl := Except.ok.inj h
      exact ⟨nofun, fun _ _ => Ne.symm heq⟩

/-! ## Decisions -/

/-- The specs some node voted on or closed a task of. -/
def Mesh.knownSpecs (m : Mesh W) : Set JobSpec :=
  {s | ∃ i, (∃ b ∈ (m.node i).ballots, b.spec = s) ∨ ∃ k ∈ (m.node i).closed, k.spec = s}

/-- The results some node voted on or closed. -/
def Mesh.knownResults (m : Mesh W) : Set JobResult :=
  {r | ∃ i, (∃ b ∈ (m.node i).ballots, b.result = r) ∨ ∃ k ∈ (m.node i).closed, k.result = some r}

/-- No two of them share a hash. -/
structure CollisionFree (x : Externals W) (m : Mesh W) : Prop where
  specs : Set.InjOn (JobSpec.contentHash x) m.knownSpecs
  results : Set.InjOn (JobResult.contentHash x) m.knownResults

/-- A mesh that knows one spec and one result has nothing to confuse. -/
theorem collisionFree_of_unique {x : Externals W} {m : Mesh W} {s : JobSpec} {r : JobResult}
    (h : ∀ i, (∀ b ∈ (m.node i).ballots, b.spec = s ∧ b.result = r) ∧
      ∀ k ∈ (m.node i).closed, k.spec = s ∧ k.result = some r) : CollisionFree x m := by
  have hspec : ∀ s' ∈ m.knownSpecs, s' = s := by
    rintro s' ⟨i, ⟨b, hb, rfl⟩ | ⟨k, hk, rfl⟩⟩
    · exact ((h i).1 b hb).1
    · exact ((h i).2 k hk).1
  have hresult : ∀ r' ∈ m.knownResults, r' = r := by
    rintro r' ⟨i, ⟨b, hb, rfl⟩ | ⟨k, hk, hr⟩⟩
    · exact ((h i).1 b hb).2
    · exact Option.some.inj (hr.symm.trans ((h i).2 k hk).2)
  refine ⟨fun a ha b hb _ => ?_, fun a ha b hb _ => ?_⟩
  · rw [hspec a ha, hspec b hb]
  · rw [hresult a ha, hresult b hb]

section Decisions

variable [WeightArith W] {c : MeshCtx W} {byz : Finset PeerId} {m : Mesh W} {i : PeerId}
  {k : Closing W} {r : JobResult}

/-- A vote of an honest peer in a closed quorum is the honest verdict on what the
quorum was about. -/
theorem honest_vote (hhonest : ∀ p ∉ byz, c.malicious p = none) (hsafe : Safe c byz m)
    (hcoll : CollisionFree c.x m) (hk : k ∈ (m.node i).closed) (hr : k.result = some r)
    {s : StoredVerification} (hs : s ∈ k.quorum.votes) (hp : s.verifier ∉ byz) :
    honestVerdict c.x k.spec r = .ok s.verification.verdict := by
  obtain ⟨⟨r', hr', hspec, hopened⟩, -⟩ := (hsafe.upright i).closed k hk
  obtain rfl : r' = r := Option.some.inj (hr'.symm.trans hr)
  obtain ⟨b, hb, hsame⟩ := (hsafe.votes i).closed k hk List.not_mem_nil s hs hp
  have hverdict : b.vote.verdict = s.verification.verdict := congrArg (·.verdict) hsame
  have hhash : b.vote.resultHash = s.verification.resultHash := congrArg (·.resultHash) hsame
  have hjudged := (hsafe.upright s.verifier).ballots b hb
  have hresult : b.result = r' := by
    apply hcoll.results ⟨s.verifier, Or.inl ⟨b, hb, rfl⟩⟩ ⟨i, Or.inr ⟨k, hk, hr⟩⟩
    calc b.result.contentHash c.x
        = b.vote.resultHash := hjudged.about.symm
      _ = k.quorum.resultHash := hhash.trans (hopened.about s hs)
      _ = r'.contentHash c.x := hopened.resultHash
  have hspecs : b.spec = k.spec := by
    apply hcoll.specs ⟨s.verifier, Or.inl ⟨b, hb, rfl⟩⟩ ⟨i, Or.inr ⟨k, hk, rfl⟩⟩
    calc b.spec.contentHash c.x
        = b.result.specHash := hjudged.spec
      _ = r'.specHash := by rw [hresult]
      _ = k.spec.contentHash c.x := hspec
  obtain ⟨coin, hon⟩ := hjudged.verdict
  have hmode : (c.ctx s.verifier).malicious = none := hhonest s.verifier hp
  unfold verdictOn at hon
  rw [hmode, hresult, hspecs, hverdict] at hon
  exact hon

/-- A closed quorum that reached its threshold has an honest vote on its side. -/
theorem decision_sound (hhonest : ∀ p ∉ byz, c.malicious p = none)
    (hm : byz.card < c.quorumConfig.m.toNat) (hsafe : Safe c byz m)
    (hcoll : CollisionFree c.x m) (hk : k ∈ (m.node i).closed) (hr : k.result = some r) :
    (k.finalised.decision = .agreed → r.resultPayload = buildExecutorResult c.x k.spec) ∧
    (k.finalised.decision = .disagreed → r.resultPayload ≠ buildExecutorResult c.x k.spec) := by
  obtain ⟨⟨r', -, -, hopened⟩, now, hdec⟩ := (hsafe.upright i).closed k hk
  have hconfig : k.quorum.config.m = c.quorumConfig.m := congrArg (·.m) hopened.config
  constructor
  · intro hagreed
    have hcount := votes_of_decision.1 (hdec.trans (congrArg some hagreed))
    obtain ⟨s, hs, hside, hp⟩ := k.quorum.byVerifier.exists_key_notMem (p := (·.isAgreed))
      (s := byz) (by rw [hconfig] at hcount; exact lt_of_lt_of_le hm hcount)
    have hverdict : s.verification.verdict = .agreed := by
      unfold StoredVerification.isAgreed at hside
      split at hside
      · next h => exact h
      · cases hside
    exact (honestVerdict_sound (honest_vote hhonest hsafe hcoll hk hr hs hp)).1 hverdict
  · intro hdisagreed
    have hcount := votes_of_decision.2 (hdec.trans (congrArg some hdisagreed))
    obtain ⟨s, hs, hside, hp⟩ := k.quorum.byVerifier.exists_key_notMem (p := (·.isDisagreed))
      (s := byz) (by rw [hconfig] at hcount; exact lt_of_lt_of_le hm hcount)
    obtain ⟨evidence, hverdict⟩ : ∃ evidence, s.verification.verdict = .disagreed evidence := by
      unfold StoredVerification.isDisagreed at hside
      split at hside
      · next evidence h => exact ⟨evidence, h⟩
      · cases hside
    exact (honestVerdict_sound (honest_vote hhonest hsafe hcoll hk hr hs hp)).2 evidence hverdict

end Decisions

/-- **Byzantine safety of the mesh.**  With fewer than `m` malicious peers, in every
interleaving of turns, partitions and authentic deliveries: whatever any node closes
as `Agreed` carries the payload its spec computes, whatever it closes as `Disagreed`
does not, and no two nodes close one result on opposite sides. -/
theorem byzantine_safety [WeightArith W] (c : MeshCtx W) (byz : Finset PeerId)
    (hhonest : ∀ p ∉ byz, c.malicious p = none) (hm : byz.card < c.quorumConfig.m.toNat)
    (clockOf : PeerId → Clock) (acts : List (Act W))
    (hauth : Guarded (Mesh.step c) (Authentic c byz) (Mesh.start c clockOf) acts)
    (hcoll : CollisionFree c.x (run (Mesh.step c) (Mesh.start c clockOf) acts)) :
    let m := run (Mesh.step c) (Mesh.start c clockOf) acts
    (∀ i, ∀ k ∈ (m.node i).closed, ∃ r, k.result = some r ∧
      (k.finalised.decision = .agreed → r.resultPayload = buildExecutorResult c.x k.spec) ∧
      (k.finalised.decision = .disagreed → r.resultPayload ≠ buildExecutorResult c.x k.spec)) ∧
    ∀ i j, ∀ k ∈ (m.node i).closed, ∀ k' ∈ (m.node j).closed, k.result = k'.result →
      ¬ (k.finalised.decision = .agreed ∧ k'.finalised.decision = .disagreed) := by
  intro m
  have hsafe : Safe c byz m :=
    Guarded.invariant (fun _ _ hact hs => hs.step hact) hauth (safe_start c byz clockOf)
  refine ⟨fun i k hk => ?_, ?_⟩
  · obtain ⟨⟨r, hr, -⟩, -⟩ := (hsafe.upright i).closed k hk
    exact ⟨r, hr, decision_sound hhonest hm hsafe hcoll hk hr⟩
  · rintro i j k hk k' hk' hsame ⟨hagreed, hdisagreed⟩
    obtain ⟨⟨r, hr, hspec, -⟩, -⟩ := (hsafe.upright i).closed k hk
    obtain ⟨⟨r', hr', hspec', -⟩, -⟩ := (hsafe.upright j).closed k' hk'
    obtain rfl : r = r' := Option.some.inj (hr.symm.trans (hsame.trans hr'))
    have hspecs : k.spec = k'.spec :=
      hcoll.specs ⟨i, Or.inr ⟨k, hk, rfl⟩⟩ ⟨j, Or.inr ⟨k', hk', rfl⟩⟩ (hspec.symm.trans hspec')
    have hright := (decision_sound hhonest hm hsafe hcoll hk hr).1 hagreed
    have hwrong := (decision_sound hhonest hm hsafe hcoll hk' hr').2 hdisagreed
    exact hwrong (hspecs ▸ hright)

/-! ### One liar among three verifiers -/

/-- What honest peers say of the small result, whose payload is empty. -/
def honestVote (n : UInt8) : JobVerification :=
  voteOf (smallResultHash false) n (.disagreed ⟨pad32 [1]⟩)

/-- Peers 9 and 10 verify honestly, peer 12 agrees with everything; two votes decide. -/
def threeCtx : MeshCtx ℚ where
  x := Externals.ofTables [(specBytes false, smallSpec false)]
    [(resultBytes false, smallResult false)]
    [(voteBytes false 9, honestVote 9), (voteBytes false 10, honestVote 10),
      (voteBytes true 12, smallVote false true 12)]
    ([1, 2, 10, 12].map fun n => (adBytes n, adOf n))
  signingKey p := keyOf (p.toBytes.headD 0)
  verifyingKey p := (keyOf (p.toBytes.headD 0)).verifyingKey
  quorumConfig := { QuorumConfig.standard with m := 2, n := 3, tMin := 0 }
  malicious p := if p = peerOf 12 then some .alwaysAgreed else none

def hear (i : UInt8) (topic : Topic) (data : Bytes) : Act ℚ :=
  .turn (peerOf i) ⟨⟨0, 0⟩, .gossip (peerOf 1) topic data false⟩

/-- Both honest nodes judge the result; node 9 also hears the liar, and then node 10. -/
def threeActs : List (Act ℚ) :=
  [hear 9 .caps (adBytes 1), hear 9 .caps (adBytes 2), hear 9 .caps (adBytes 10),
    hear 9 .caps (adBytes 12), hear 10 .caps (adBytes 1), hear 10 .caps (adBytes 2),
    hear 9 .tasks (specBytes false), hear 10 .tasks (specBytes false),
    hear 9 .verify (tagJobResult :: resultBytes false),
    hear 9 .verify (tagJobVerification :: voteBytes true 12),
    hear 10 .verify (tagJobResult :: resultBytes false),
    hear 9 .verify (tagJobVerification :: voteBytes false 10)]

def threeMesh : Mesh ℚ := run (Mesh.step threeCtx) (Mesh.start threeCtx fun _ => ⟨0, 0⟩) threeActs

/-- The two nodes that take turns know one spec and one result, the others nothing. -/
theorem threeMesh_known (i : PeerId) :
    (∀ b ∈ (threeMesh.node i).ballots, b.spec = smallSpec false ∧ b.result = smallResult false) ∧
    ∀ k ∈ (threeMesh.node i).closed,
      k.spec = smallSpec false ∧ k.result = some (smallResult false) := by
  by_cases h9 : i = peerOf 9
  · subst h9
    decide +kernel
  · by_cases h10 : i = peerOf 10
    · subst h10
      decide +kernel
    · have hturn : ∀ a, Act.turn i a ∉ threeActs := by
        intro a ha
        simp only [threeActs, hear, List.mem_cons, List.not_mem_nil, or_false, Act.turn.injEq] at ha
        rcases ha with ⟨h, -⟩ | ⟨h, -⟩ | ⟨h, -⟩ | ⟨h, -⟩ | ⟨h, -⟩ | ⟨h, -⟩ | ⟨h, -⟩ | ⟨h, -⟩ |
          ⟨h, -⟩ | ⟨h, -⟩ | ⟨h, -⟩ | ⟨h, -⟩
        all_goals first | exact h9 h | exact h10 h
      have hnode := Mesh.node_run_of_no_turn threeCtx (Mesh.start threeCtx fun _ => ⟨0, 0⟩) hturn
      have hballots : (threeMesh.node i).ballots = [] := congrArg NodeLoop.ballots hnode
      have hclosed : (threeMesh.node i).closed = [] := congrArg NodeLoop.closed hnode
      simp [hballots, hclosed]

/-- Node 9 closes the task against the liar, and the payload is indeed not the
computed one. -/
theorem threeMesh_decides :
    ∃ k ∈ (threeMesh.node (peerOf 9)).closed, k.finalised.decision = .disagreed ∧
      ∃ r, k.result = some r ∧ r.resultPayload ≠ buildExecutorResult threeCtx.x k.spec := by
  have hhonest : ∀ p ∉ ({peerOf 12} : Finset PeerId), threeCtx.malicious p = none := by
    intro p hp
    exact if_neg fun h => hp (Finset.mem_singleton.mpr h)
  have hsafe := (byzantine_safety threeCtx {peerOf 12} hhonest (by decide) (fun _ => ⟨0, 0⟩)
    threeActs (by decide +kernel) (collisionFree_of_unique threeMesh_known)).1 (peerOf 9)
  have hclosed : ∃ k ∈ (threeMesh.node (peerOf 9)).closed, k.finalised.decision = .disagreed := by
    decide +kernel
  obtain ⟨k, hk, hdec⟩ := hclosed
  obtain ⟨r, hr, -, hwrong⟩ := hsafe k hk
  exact ⟨k, hk, hdec, r, hr, hwrong hdec⟩

end Parseh.Chaos
