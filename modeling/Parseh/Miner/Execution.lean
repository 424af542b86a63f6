import Parseh.Miner.Finalise

/-!
# Execution over whole runs

What `handle_tasks_message` does as the elected executor, delivery after
delivery.  `record_spec` ignores a spec it has, so the handler executes every
delivery anew: a later second gives another result, the same second overwrites
the open quorum.

* `published_step`: a step publishes the result it executes and no other;
* `mem_quorums_of_opened`: a step that opens a quorum keeps exactly the old ones
  that the new one does not displace;
* `executed_once_iff`: a run publishes at most one result per spec and loses no
  counted vote of a delivered spec exactly when every execution is the first of
  its spec and displaces no vote of it.
-/

namespace Parseh.Miner

open Parseh.Lib Parseh.Wire Parseh.Core Parseh.Shared Parseh.Verify

variable {W : Type}

/-! ## What an execution publishes -/

def Outbound.result? : Outbound W → Option JobResult
  | .jobResult result => some result
  | .stateDelta _ => none

/-- The results the node has published, oldest first. -/
def Node.published (n : Node W) : List JobResult := n.outbox.filterMap Outbound.result?

/-- The spec a step delivers, if any. -/
def deliveredSpec (c : Ctx W) (s : Step W) : Option JobSpec :=
  match s.action with
  | .gossip .tasks m => c.x.specCbor.decode m.data
  | _ => none

theorem admitSpec_some {c : Ctx W} {clock : Clock} {n : Node W} {data : Bytes} {spec : JobSpec}
    (h : (admitSpec c clock n data).2 = some spec) : c.x.specCbor.decode data = some spec := by
  unfold admitSpec at h
  cases hd : c.x.specCbor.decode data with
  | none => simp [hd] at h
  | some spec' =>
    cases hk : n.peerRegistry.verifyingKey spec'.submitter with
    | none => simp [hd, hk] at h
    | some key =>
      cases hs : spec'.verifySignature c.x key with
      | error e => simp [hd, hk, hs] at h
      | ok u => simpa [hd, hk, hs] using h

/-- What is executed is the delivered spec. -/
theorem executedResult_spec {c : Ctx W} {n : Node W} {s : Step W} {r : JobResult × ContentHash}
    (h : executedResult c n s = some r) :
    ∃ spec, deliveredSpec c s = some spec ∧ r = ownResult c s.clock spec := by
  obtain ⟨clock, action⟩ := s
  cases action with
  | gossip topic m =>
    cases topic with
    | tasks =>
      simp only [executedResult] at h
      split at h
      · next n₁ spec ha =>
        split at h
        · exact ⟨spec, admitSpec_some (by rw [ha]), (Option.some.inj h).symm⟩
        · cases h
      · cases h
    | _ => cases h
  | _ => cases h

section Steps

variable [WeightArith W]

/-- A step that executes is `executeSpec` after a quiet admission. -/
theorem step_of_executed {c : Ctx W} {n : Node W} {s : Step W} {r : JobResult × ContentHash}
    (h : executedResult c n s = some r) :
    ∃ n₁ spec, Quiet n n₁ ∧ r = ownResult c s.clock spec ∧
      step c n s = executeSpec c s.clock n₁ spec := by
  obtain ⟨clock, action⟩ := s
  cases action with
  | gossip topic m =>
    cases topic with
    | tasks =>
      have hq := admitSpec_quiet c clock n m.data
      simp only [executedResult] at h
      split at h
      · next n₁ spec ha =>
        rw [ha] at hq
        split at h
        · next he =>
          refine ⟨n₁, spec, hq, (Option.some.inj h).symm, ?_⟩
          simp only [step, handleTasksMessage, ha, he, if_true]
        · cases h
      · cases h
    | _ => cases h
  | _ => cases h

omit [WeightArith W] in
theorem filterMap_deltas (c : Ctx W) (cls : List (Closing W)) :
    (cls.flatMap (Closing.deltas c)).filterMap Outbound.result? = [] := by
  rw [List.filterMap_eq_nil_iff]
  intro d hd
  obtain ⟨cl, -, hd⟩ := List.mem_flatMap.mp hd
  rcases List.mem_cons.mp hd with rfl | hd
  · rfl
  · obtain ⟨p, -, rfl⟩ := List.mem_map.mp hd
    rfl

/-- **Publishing.**  A step publishes the result it executes and no other. -/
theorem published_step (c : Ctx W) (n : Node W) (s : Step W) :
    (step c n s).published =
      n.published ++ ((executedResult c n s).map Prod.fst).toList := by
  cases hx : executedResult c n s with
  | some r =>
    obtain ⟨n₁, spec, hq, rfl, hstep⟩ := step_of_executed hx
    rw [hstep, Node.published, Node.published, ← hq.outbox]
    exact List.filterMap_append
  | none =>
    rw [Option.map_none, Option.toList_none, List.append_nil]
    have heff := step_effect c n s
    generalize step c n s = n' at heff
    cases heff with
    | quiet h => rw [Node.published, h.outbox, Node.published]
    | opened _ h =>
      rw [Node.published, Node.published, ← h.outbox]
      rfl
    | executed exe => cases hx.symm.trans exe
    | voted _ h =>
      rw [Node.published, Node.published, ← h.outbox]
      rfl
    | ticked =>
      rw [Node.published, (runFinaliseTick_blocks c s.clock n).2.2.2.2, List.filterMap_append,
        filterMap_deltas, List.append_nil, Node.published]

/-! ## What an execution displaces -/

/-- A step that admits a result is `openQuorum` after a quiet admission. -/
theorem step_of_admitted {c : Ctx W} {n : Node W} {s : Step W} {r : JobResult}
    (h : admittedResult c n s = some r) :
    ∃ n₁, Quiet n n₁ ∧ step c n s = openQuorum s.clock n₁ r.specHash (r.contentHash c.x) := by
  unfold admittedResult at h
  split at h
  · next source tag body hact =>
    split at h
    · next htag =>
      have hq := admitJobResult_quiet c s.clock n body
      cases ha : admitJobResult c s.clock n body with
      | mk n₁ o =>
        rw [ha] at h hq
        cases h
        refine ⟨n₁, hq, ?_⟩
        simp only [step, hact, handleVerifyMessage, htag, if_true, handleInboundJobResult, ha]
    · cases h
  · cases h

omit [WeightArith W] in
theorem openedHash_of_executed {c : Ctx W} {n : Node W} {s : Step W} {r : JobResult × ContentHash}
    (h : executedResult c n s = some r) : openedHash c n s = some r.2 := by
  rw [openedHash, admittedResult_of_executed h, h]
  rfl

/-- **Open quorums after one is opened**: the fresh one and every old one that it
neither overwrites nor evicts. -/
theorem mem_quorums_of_opened {c : Ctx W} {n : Node W} (hcap : 0 < n.quorums.cap) {s : Step W}
    {rh : ContentHash} (h : openedHash c n s = some rh) :
    ∃ specHash, ∀ e, e ∈ (step c n s).quorums.entries.rows ↔
      e = (rh, freshQuorum s.clock specHash rh) ∨
        (e ∈ n.quorums.entries.rows ∧ e ∉ n.quorums.displaced rh) := by
  unfold openedHash at h
  split at h
  · next r hr =>
    split at h
    · cases h
    · next hpeek =>
      cases h
      obtain ⟨n₁, hq, hstep⟩ := step_of_admitted hr
      rw [Option.not_isSome_iff_eq_none, ← hq.quorums] at hpeek
      refine ⟨r.specHash, fun e => ?_⟩
      rw [hstep, ← hq.quorums]
      simp only [openQuorum, LruCache.get, hpeek]
      exact LruCache.mem_put_iff (hq.quorums ▸ hcap)
  · obtain ⟨r, hr, rfl⟩ := Option.map_eq_some_iff.mp h
    obtain ⟨n₁, spec, hq, rfl, hstep⟩ := step_of_executed hr
    refine ⟨spec.contentHash c.x, fun e => ?_⟩
    rw [hstep, ← hq.quorums]
    exact LruCache.mem_put_iff (hq.quorums ▸ hcap)

/-- A delivery that is not executed leaves the open quorums alone. -/
theorem quorums_of_not_executed {c : Ctx W} {n : Node W} {s : Step W} {spec : JobSpec}
    (hdel : deliveredSpec c s = some spec) (h : executedResult c n s = none) :
    (step c n s).quorums = n.quorums := by
  obtain ⟨clock, action⟩ := s
  cases action with
  | gossip topic m =>
    cases topic with
    | tasks =>
      have heff := step_effect c n ⟨clock, .gossip .tasks m⟩
      generalize step c n ⟨clock, .gossip .tasks m⟩ = n' at heff
      cases heff with
      | quiet hq => exact hq.quorums
      | opened adm => cases adm
      | executed exe => cases h.symm.trans exe
      | voted adm => cases adm
      | ticked ht => cases ht
    | _ => cases hdel
  | _ => cases hdel

/-! ## At most one execution -/

/-- No two published results answer one spec. -/
def AtMostOnce (n : Node W) : Prop := (n.published.map (·.specHash)).Nodup

instance (n : Node W) : Decidable (AtMostOnce n) :=
  inferInstanceAs (Decidable (n.published.map (·.specHash)).Nodup)

/-- A delivery of a spec discards no vote counted in an open quorum of that spec. -/
def VotesKept (c : Ctx W) (n : Node W) (s : Step W) : Prop :=
  ∀ spec ∈ deliveredSpec c s, ∀ e ∈ n.quorums.entries.rows,
    e.2.finalised = false → e.2.quorum.specHash = spec.contentHash c.x →
    ∀ sv ∈ e.2.quorum.votes, ∃ e' ∈ (step c n s).quorums.entries.rows,
      e'.1 = e.1 ∧ sv ∈ e'.2.quorum.votes

instance (c : Ctx W) (n : Node W) (s : Step W) : Decidable (VotesKept c n s) :=
  inferInstanceAs (Decidable (∀ spec ∈ deliveredSpec c s, ∀ e ∈ n.quorums.entries.rows,
    e.2.finalised = false → e.2.quorum.specHash = spec.contentHash c.x →
    ∀ sv ∈ e.2.quorum.votes, ∃ e' ∈ (step c n s).quorums.entries.rows,
      e'.1 = e.1 ∧ sv ∈ e'.2.quorum.votes))

/-- The step executes nothing, or for the first time a spec none of whose counted
votes is in an open quorum that the new one displaces. -/
def FirstExecution (c : Ctx W) (n : Node W) (s : Step W) : Prop :=
  ∀ r ∈ executedResult c n s, r.1.specHash ∉ n.published.map (·.specHash) ∧
    ∀ e ∈ n.quorums.displaced r.2, e.2.quorum.specHash = r.1.specHash → e.2.quorum.votes = []

instance (c : Ctx W) (n : Node W) (s : Step W) : Decidable (FirstExecution c n s) :=
  inferInstanceAs (Decidable (∀ r ∈ executedResult c n s,
    r.1.specHash ∉ n.published.map (·.specHash) ∧ ∀ e ∈ n.quorums.displaced r.2,
      e.2.quorum.specHash = r.1.specHash → e.2.quorum.votes = []))

theorem atMostOnce_step_iff {c : Ctx W} {n : Node W} (h : AtMostOnce n) (s : Step W) :
    AtMostOnce (step c n s) ↔
      ∀ r ∈ executedResult c n s, r.1.specHash ∉ n.published.map (·.specHash) := by
  unfold AtMostOnce at h ⊢
  rw [published_step]
  cases hx : executedResult c n s with
  | none => simpa using h
  | some r =>
    rw [Option.map_some, Option.toList_some, List.map_append, List.map_singleton,
      List.nodup_append]
    simp only [Option.mem_def, Option.some.injEq, forall_eq']
    constructor
    · rintro ⟨-, -, hdisj⟩ hmem
      exact hdisj _ hmem _ (by simp) rfl
    · intro hnew
      refine ⟨h, by simp, ?_⟩
      rintro a ha b hb rfl
      rw [List.mem_singleton] at hb
      exact hnew (hb ▸ ha)

theorem votesKept_iff {c : Ctx W} {n : Node W} (hcap : 0 < n.quorums.cap) (hopen : OpenInv n)
    (s : Step W) :
    VotesKept c n s ↔ ∀ r ∈ executedResult c n s, ∀ e ∈ n.quorums.displaced r.2,
      e.2.quorum.specHash = r.1.specHash → e.2.quorum.votes = [] := by
  constructor
  · intro hkept r hr e he hspec
    obtain ⟨spec, hdel, rfl⟩ := executedResult_spec hr
    rw [List.eq_nil_iff_forall_not_mem]
    intro sv hsv
    have hrow := LruCache.mem_rows_of_displaced he
    obtain ⟨e', he', hkey, hin⟩ := hkept spec hdel e hrow (hopen e.1 e.2 hrow).pending hspec sv hsv
    obtain ⟨sh, hrows⟩ := mem_quorums_of_opened hcap (openedHash_of_executed hr)
    rcases (hrows e').mp he' with rfl | ⟨hold, hstay⟩
    · -- the fresh quorum has no vote at all
      cases hin
    · exact hstay ((n.quorums.entries.eq_of_key_eq hold hrow hkey) ▸ he)
  · intro hguard spec hdel e he _ hspec sv hsv
    cases hx : executedResult c n s with
    | none =>
      rw [quorums_of_not_executed hdel hx]
      exact ⟨e, he, rfl, hsv⟩
    | some r =>
      obtain ⟨spec', hdel', rfl⟩ := executedResult_spec hx
      have hsame : spec' = spec := Option.some.inj (hdel'.symm.trans hdel)
      obtain ⟨sh, hrows⟩ := mem_quorums_of_opened hcap (openedHash_of_executed hx)
      refine ⟨e, (hrows e).mpr (Or.inr ⟨he, fun hdisp => ?_⟩), rfl, hsv⟩
      have hnil := hguard _ hx e hdisp (hsame ▸ hspec)
      rw [hnil] at hsv
      cases hsv

/-- **At-most-once execution.**  A run publishes at most one result per spec, and
no delivery of a spec discards a counted vote of it, exactly when every
execution of the run is the first of its spec and its quorum displaces no open
one with a vote for that spec. -/
theorem executed_once_iff (c : Ctx W) (clock : Clock) (listeners : List Multiaddr)
    (shared : SharedState) (as : List (Step W)) :
    Guarded (step c) (fun n s => AtMostOnce (step c n s) ∧ VotesKept c n s)
        (Node.start c clock listeners shared) as ↔
      Guarded (step c) (FirstExecution c) (Node.start c clock listeners shared) as := by
  refine guarded_iff (I := fun n => OpenInv n ∧ n.quorums.cap = openQuorumsLruCap)
    (J := AtMostOnce) ?_ (fun n s h => h.1) ?_ ⟨openInv_start c clock listeners shared, rfl⟩
    List.nodup_nil as
  · rintro n s ⟨hopen, hcap⟩
    exact ⟨openInv_step c n s hopen, (cap_step c n s).trans hcap⟩
  · rintro n s ⟨hopen, hcap⟩ honce
    have hpos : 0 < n.quorums.cap := by
      rw [hcap]
      decide
    rw [atMostOnce_step_iff honce, votesKept_iff hpos hopen, ← forall₂_and]
    rfl

end Steps

/-! ## The small network with node 9 as executor

Peers 2 and 11 are no smaller candidates, so node 9 executes the spec. -/

section Small

/-- The result of node 9 at second `t`, and the bytes that stand for it. -/
def executorResult (t : UInt64) : JobResult where
  wireVersion := wireVersion
  specHash := smallSpecHash false
  executor := peerOf 9
  executedAt := t
  resultMeta := { verifierMethod := .deterministic, executionTimeMs := 1,
                  modelUsed := some "echo-executor", inferenceTokenCount := none }
  resultPayload := (pad32 (u64LeBytes 1)).bytes
  signature := List.replicate 64 9

def executorBytes (t : UInt64) : Bytes := [0x91, t.toUInt8]

/-- The vote of peer `n` on the result of second 1. -/
def executorVoteBytes (n : UInt8) : Bytes := [0x7B, n]

def executorVote (n : UInt8) : JobVerification := voteOf ⟨pad32 (executorBytes 1)⟩ n .agreed

/-- The small network with the results of node 9 of the first seconds, votes for
the first of them, and votes against the result of peer 1. -/
def executorExternals : Externals ℚ :=
  Externals.ofTables [(specBytes false, smallSpec false)]
    ((resultBytes false, smallResult false) ::
      [1, 2].map fun t => (executorBytes t, executorResult t))
    ([11, 12, 13, 14, 15].flatMap fun n =>
      [(voteBytes false n, smallVote false false n), (executorVoteBytes n, executorVote n)])
    ([1, 2, 11, 12, 13, 14, 15].map fun n => (adBytes n, adOf n))

def hearExecutorVote (n : UInt8) : Action ℚ :=
  .gossip .verify ⟨some (peerOf n), tagJobVerification :: executorVoteBytes n⟩

/-- The spec is delivered in two different seconds. -/
def redeliveredRun : List (Step ℚ) :=
  [atSecs 0 (hearAd 2), atSecs 1 (hearSpec false), atSecs 2 (hearSpec false)]

/-- The spec is delivered twice in one second, with a vote in between. -/
def overwrittenRun : List (Step ℚ) :=
  [atSecs 0 (hearAd 2), atSecs 0 (hearAd 11), atSecs 1 (hearSpec false),
    atSecs 1 (hearExecutorVote 11), atSecs 1 (hearSpec false)]

/-- A redelivered spec is executed again: in another second it gives a second
result, in the same second it throws the counted vote away. -/
theorem redelivered_spec_executed_again :
    ¬ AtMostOnce (run (step (smallCtx executorExternals)) (smallStart executorExternals)
      redeliveredRun) ∧
    ¬ Guarded (step (smallCtx executorExternals)) (VotesKept (smallCtx executorExternals))
      (smallStart executorExternals) overwrittenRun := by
  decide +kernel

end Small

end Parseh.Miner
