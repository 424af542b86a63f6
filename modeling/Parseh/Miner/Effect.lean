import Parseh.Miner.Node

/-!
# What one step of a node can do

`step_effect` is the inversion of `step`, said once: a step is quiet, opens the
quorum of an admitted result, executes a spec, slots an admitted vote, or runs
the finalise tick.  The invariants over whole runs are proved from it and never
unfold a handler.

`runFinaliseTick_blocks` does the same for the loop of the tick: the history, the
reputation log and the outbox each grow by one block for every closed quorum.
-/

namespace Parseh.Miner

open Parseh.Lib Parseh.Wire Parseh.Core Parseh.Shared Parseh.Verify

variable {W : Type}

/-- Nothing the quorums, the history, the votes or the rewards depend on has
changed. -/
structure Quiet (n n' : Node W) : Prop where
  quorums : n'.quorums = n.quorums
  closed : n'.closed = n.closed
  outbox : n'.outbox = n.outbox
  log : n'.shared.reputationLog = n.shared.reputationLog
  verifications : n'.shared.verifications = n.shared.verifications

theorem Quiet.refl (n : Node W) : Quiet n n := ⟨rfl, rfl, rfl, rfl, rfl⟩

theorem bufferMessage_quiet (clock : Clock) (n : Node W) (p : PeerId) (payload : Bytes)
    (tag : Option UInt8) : Quiet n (bufferMessage clock n p payload tag) :=
  ⟨rfl, rfl, rfl, rfl, rfl⟩

/-! ## Admission -/

theorem admitSpec_quiet (c : Ctx W) (clock : Clock) (n : Node W) (data : Bytes) :
    Quiet n (admitSpec c clock n data).1 := by
  unfold admitSpec
  split
  · exact Quiet.refl n
  · split
    · exact bufferMessage_quiet ..
    · split
      · exact Quiet.refl n
      · exact ⟨rfl, rfl, rfl, rfl, rfl⟩

theorem admitJobResult_quiet (c : Ctx W) (clock : Clock) (n : Node W) (body : Bytes) :
    Quiet n (admitJobResult c clock n body).1 := by
  unfold admitJobResult
  split
  · exact Quiet.refl n
  · split
    · exact bufferMessage_quiet ..
    · split
      · exact Quiet.refl n
      · dsimp only
        split
        · exact ⟨rfl, rfl, rfl, rfl, rfl⟩
        · split
          · exact ⟨rfl, rfl, rfl, rfl, rfl⟩
          · next h =>
            obtain ⟨-, -, hv, -, hl⟩ := SharedState.recordResult_ok h
            exact ⟨rfl, rfl, rfl, hl, hv⟩

/-- A vote that is not admitted leaves nothing behind but a buffered copy. -/
theorem admitVerification_none {c : Ctx W} {clock : Clock} {n : Node W} {body : Bytes}
    (h : (admitVerification c clock n body).2 = none) :
    Quiet n (admitVerification c clock n body).1 := by
  unfold admitVerification at h ⊢
  split
  · exact Quiet.refl n
  · split
    · exact bufferMessage_quiet ..
    · split
      · exact Quiet.refl n
      · split
        · exact Quiet.refl n
        · simp_all

/-- What an admitted vote has passed, and its one row in the store. -/
structure AdmittedVote (c : Ctx W) (clock : Clock) (n n' : Node W) (v : JobVerification)
    (key : VerifyingKey) : Prop where
  registered : n.peerRegistry.verifyingKey v.verifier = some key
  signature : v.verifySignature c.x key = .ok ()
  quorums : n'.quorums = n.quorums
  closed : n'.closed = n.closed
  outbox : n'.outbox = n.outbox
  log : n'.shared.reputationLog = n.shared.reputationLog
  verifications : n'.shared.verifications =
    n.shared.verifications.insertOrIgnore
      (SharedState.verificationRow c.x v (Clock.unixI64 clock))

theorem admitVerification_some {c : Ctx W} {clock : Clock} {n : Node W} {body : Bytes}
    {v : JobVerification} {key : VerifyingKey}
    (h : (admitVerification c clock n body).2 = some (v, key)) :
    c.x.verificationCbor.decode body = some v ∧
      AdmittedVote c clock n (admitVerification c clock n body).1 v key := by
  unfold admitVerification at h ⊢
  cases hd : c.x.verificationCbor.decode body with
  | none => simp [hd] at h
  | some u =>
    cases hk : n.peerRegistry.verifyingKey u.verifier with
    | none => simp [hd, hk] at h
    | some k =>
      cases hs : u.verifySignature c.x k with
      | error e => simp [hd, hk, hs] at h
      | ok a =>
        cases hr : n.shared.recordVerification c.x u (Clock.unixI64 clock) with
        | error e => simp [hd, hk, hs, hr] at h
        | ok s =>
          simp only [hd, hk, hs, hr, Option.some.injEq, Prod.mk.injEq] at h ⊢
          obtain ⟨rfl, rfl⟩ := h
          obtain ⟨hv, -, -, -, hl⟩ := SharedState.recordVerification_ok hr
          exact ⟨rfl, ⟨hk, hs, rfl, rfl, rfl, hl, hv⟩⟩

/-! ## What a step admits -/

/-- The inbound result the step admits, if any. -/
def admittedResult (c : Ctx W) (n : Node W) (s : Step W) : Option JobResult :=
  match s.action with
  | .gossip .verify ⟨_, tag :: body⟩ =>
    if tag = tagJobResult then (admitJobResult c s.clock n body).2 else none
  | _ => none

/-- The vote the step admits, if any, with the key it verified under. -/
def admittedVote (c : Ctx W) (n : Node W) (s : Step W) : Option (JobVerification × VerifyingKey) :=
  match s.action with
  | .gossip .verify ⟨_, tag :: body⟩ =>
    if tag = tagJobVerification then (admitVerification c s.clock n body).2 else none
  | _ => none

/-- An admitted vote was decoded from the message and verifies under the key the
directory holds for its verifier. -/
theorem admittedVote_spec {c : Ctx W} {n : Node W} {s : Step W} {v : JobVerification}
    {key : VerifyingKey} (h : admittedVote c n s = some (v, key)) :
    (∃ body, c.x.verificationCbor.decode body = some v) ∧
      n.peerRegistry.verifyingKey v.verifier = some key ∧ v.verifySignature c.x key = .ok () := by
  unfold admittedVote at h
  split at h
  · split at h
    · obtain ⟨hdec, hadm⟩ := admitVerification_some h
      exact ⟨⟨_, hdec⟩, hadm.registered, hadm.signature⟩
    · cases h
  · cases h

/-- The result the node signs in this step as the elected executor, if any. -/
def executedResult (c : Ctx W) (n : Node W) (s : Step W) : Option (JobResult × ContentHash) :=
  match s.action with
  | .gossip .tasks m =>
    match admitSpec c s.clock n m.data with
    | (n₁, some spec) => if elected c n₁ spec then some (ownResult c s.clock spec) else none
    | (_, none) => none
  | _ => none

theorem admittedResult_of_executed {c : Ctx W} {n : Node W} {s : Step W}
    {r : JobResult × ContentHash} (h : executedResult c n s = some r) :
    admittedResult c n s = none := by
  obtain ⟨clock, action⟩ := s
  cases action with
  | gossip topic m => cases topic <;> first | rfl | cases h
  | _ => rfl

section Step

variable [WeightArith W]

/-- Everything a step can do. -/
inductive Effect (c : Ctx W) (n : Node W) (s : Step W) : Node W → Prop
  | quiet {n' : Node W} (h : Quiet n n') : Effect c n s n'
  | opened {n₁ : Node W} {r : JobResult} (adm : admittedResult c n s = some r) (h : Quiet n n₁) :
      Effect c n s (openQuorum s.clock n₁ r.specHash (r.contentHash c.x))
  | executed {n₁ : Node W} {spec : JobSpec}
      (exe : executedResult c n s = some (ownResult c s.clock spec)) (h : Quiet n n₁) :
      Effect c n s (executeSpec c s.clock n₁ spec)
  | voted {n₁ : Node W} {v : JobVerification} {key : VerifyingKey}
      (adm : admittedVote c n s = some (v, key)) (h : AdmittedVote c s.clock n n₁ v key) :
      Effect c n s (slotVote c.x n₁ v key)
  | ticked (h : s.action = .finaliseTick) : Effect c n s (runFinaliseTick c s.clock n)

private theorem effect_tasks (c : Ctx W) (n : Node W) (clock : Clock) (m : Message) :
    Effect c n ⟨clock, .gossip .tasks m⟩ (handleTasksMessage c clock n m) := by
  have hq := admitSpec_quiet c clock n m.data
  unfold handleTasksMessage
  cases ha : admitSpec c clock n m.data with
  | mk n₁ o =>
    rw [ha] at hq
    cases o with
    | none => exact .quiet hq
    | some spec =>
      dsimp only
      cases he : elected c n₁ spec with
      | false => exact .quiet hq
      | true => exact .executed (by simp [executedResult, ha, he]) hq

private theorem effect_verify (c : Ctx W) (n : Node W) (clock : Clock) (m : Message) :
    Effect c n ⟨clock, .gossip .verify m⟩ (handleVerifyMessage c clock n m) := by
  obtain ⟨source, data⟩ := m
  unfold handleVerifyMessage
  cases data with
  | nil => exact .quiet (Quiet.refl n)
  | cons tag body =>
    dsimp only
    by_cases hr : tag = tagJobResult
    · have hq := admitJobResult_quiet c clock n body
      rw [if_pos hr]
      unfold handleInboundJobResult
      cases ha : admitJobResult c clock n body with
      | mk n₁ o =>
        rw [ha] at hq
        cases o with
        | none => exact .quiet hq
        | some r => exact .opened (by simp [admittedResult, hr, ha]) hq
    · rw [if_neg hr]
      by_cases hv : tag = tagJobVerification
      · rw [if_pos hv]
        unfold handleInboundVerification
        cases ha : admitVerification c clock n body with
        | mk n₁ o =>
          cases o with
          | none =>
            have hq := admitVerification_none (show (admitVerification c clock n body).2 = none by
              rw [ha])
            rw [ha] at hq
            exact .quiet hq
          | some p =>
            have hs := admitVerification_some
              (show (admitVerification c clock n body).2 = some (p.1, p.2) by rw [ha])
            rw [ha] at hs
            exact .voted (by simp [admittedVote, hv, ha]) hs.2
      · rw [if_neg hv]
        exact .quiet (Quiet.refl n)

omit [WeightArith W] in
private theorem foldl_synced (c : Ctx W) (clock : Clock) (reg : PeerRegistry)
    (l : List (JobOutcome W)) (s : SharedState) :
    (l.foldl (applySyncedOutcome c clock reg) s).reputationLog = s.reputationLog ∧
      (l.foldl (applySyncedOutcome c clock reg) s).verifications = s.verifications := by
  induction l generalizing s with
  | nil => exact ⟨rfl, rfl⟩
  | cons o l ih =>
    have hone : (applySyncedOutcome c clock reg s o).reputationLog = s.reputationLog ∧
        (applySyncedOutcome c clock reg s o).verifications = s.verifications := by
      unfold applySyncedOutcome
      split
      · exact ⟨rfl, rfl⟩
      · split <;> exact ⟨rfl, rfl⟩
    rw [List.foldl_cons, (ih _).1, (ih _).2]
    exact hone

omit [WeightArith W] in
theorem applyStateSyncResponse_quiet (c : Ctx W) (clock : Clock) (n : Node W)
    (r : StateSyncResponse W) : Quiet n (applyStateSyncResponse c clock n r) := by
  obtain ⟨hl, hv⟩ := foldl_synced c clock n.peerRegistry r.outcomes n.shared
  unfold applyStateSyncResponse
  split
  · exact ⟨rfl, rfl, rfl, hl, hv⟩
  · exact Quiet.refl n

/-- **Inversion of a step.** -/
theorem step_effect (c : Ctx W) (n : Node W) (s : Step W) : Effect c n s (step c n s) := by
  obtain ⟨clock, action⟩ := s
  cases action with
  | gossip topic m =>
    cases topic with
    | caps => exact .quiet ⟨rfl, rfl, rfl, rfl, rfl⟩
    | tasks => exact effect_tasks c n clock m
    | verify => exact effect_verify c n clock m
    | stateDeltas => exact .quiet (Quiet.refl n)
  | finaliseTick => exact .ticked rfl
  | drain => exact .quiet ⟨rfl, rfl, rfl, rfl, rfl⟩
  | prune => exact .quiet ⟨rfl, rfl, rfl, rfl, rfl⟩
  | stateSyncResponse r => exact .quiet (applyStateSyncResponse_quiet c clock n r)

end Step

/-! ## The blocks of a finalise tick -/

/-- The log entries a closing wrote. -/
def Closing.entries (c : Ctx W) (cl : Closing W) : List ReputationEntry :=
  cl.rewarded.map fun p =>
    { peer := p, delta := 5, reason := "verifier_agreed",
      relatedHash := some (cl.finalised.outcome.contentHash c.x),
      appliedAt := Clock.unixI64 cl.clock }

/-- What a closing published: its outcome, then one delta for each reward. -/
def Closing.deltas (c : Ctx W) (cl : Closing W) : List (Outbound W) :=
  .stateDelta (signDelta c.x (StateDelta.unsigned (.outcome cl.finalised.outcome) c.localPeerId
    (unixNow cl.clock.wall)) c.signingKey) ::
  cl.rewarded.map fun p =>
    .stateDelta (signDelta c.x (StateDelta.unsigned (.reputation p 5 "verifier_agreed"
      (some (cl.finalised.outcome.contentHash c.x))) c.localPeerId (unixNow cl.clock.wall))
      c.signingKey)

/-- The closing a finalised quorum leads to over a store. -/
def closingOf (c : Ctx W) (clock : Clock) (shared : SharedState)
    (r : ContentHash × Quorum W × FinalisedQuorum W) : Closing W where
  resultHash := r.1
  quorum := r.2.1
  finalised := r.2.2
  rewarded := rewardedVerifiers c.x shared r.1 r.2.2.outcome
  clock := clock

/-- Two nodes with the same cache, votes and directory. -/
structure SameVotes (n n' : Node W) : Prop where
  quorums : n'.quorums = n.quorums
  verifications : n'.shared.verifications = n.shared.verifications
  peerRegistry : n'.peerRegistry = n.peerRegistry

theorem rewardedVerifiers_congr (x : Externals W) {s s' : SharedState}
    (h : s'.verifications = s.verifications) (resultHash : ContentHash) (o : JobOutcome W) :
    rewardedVerifiers x s' resultHash o = rewardedVerifiers x s resultHash o := by
  simp only [rewardedVerifiers, SharedState.verificationsForResult,
    SharedState.verificationRowsOf, h]

private theorem foldl_reward (c : Ctx W) (clock : Clock) (h : ContentHash) (ps : List PeerId)
    (n : Node W) :
    SameVotes n (ps.foldl (rewardVerifier c clock h) n) ∧
    (ps.foldl (rewardVerifier c clock h) n).closed = n.closed ∧
    (ps.foldl (rewardVerifier c clock h) n).shared.reputationLog =
      n.shared.reputationLog ++ ps.map (fun p =>
        { peer := p, delta := 5, reason := "verifier_agreed", relatedHash := some h,
          appliedAt := Clock.unixI64 clock }) ∧
    (ps.foldl (rewardVerifier c clock h) n).outbox =
      n.outbox ++ ps.map (fun p => .stateDelta (signDelta c.x (StateDelta.unsigned
        (.reputation p 5 "verifier_agreed" (some h)) c.localPeerId (unixNow clock.wall))
        c.signingKey)) := by
  induction ps generalizing n with
  | nil => exact ⟨⟨rfl, rfl, rfl⟩, rfl, by simp, by simp⟩
  | cons p ps ih =>
    obtain ⟨⟨hq, hv, hp⟩, hc, hl, ho⟩ := ih (rewardVerifier c clock h n p)
    rw [List.foldl_cons]
    refine ⟨⟨hq, hv, hp⟩, hc, ?_, ?_⟩
    · rw [hl, List.map_cons]
      exact List.append_assoc ..
    · rw [ho, List.map_cons]
      exact List.append_assoc ..

/-- Publishing an outcome touches neither the votes nor the log. -/
private theorem publishOutcome_frame (c : Ctx W) (clock : Clock) (n : Node W)
    (o : JobOutcome W) :
    SameVotes n (publishOutcome c clock n o) ∧
      (publishOutcome c clock n o).shared.reputationLog = n.shared.reputationLog := by
  unfold publishOutcome
  cases hr : n.shared.recordOutcome c.x o (Clock.unixI64 clock) with
  | error e => exact ⟨⟨rfl, rfl, rfl⟩, rfl⟩
  | ok s =>
    obtain ⟨-, -, -, hv, hl⟩ := SharedState.recordOutcome_ok hr
    exact ⟨⟨rfl, hv, rfl⟩, hl⟩

/-- One iteration of the tick's loop appends one block to the history, the log
and the outbox, and leaves the votes alone. -/
theorem finaliseOne_block (c : Ctx W) (clock : Clock) (n : Node W)
    (r : ContentHash × Quorum W × FinalisedQuorum W) :
    SameVotes n (finaliseOne c clock n r) ∧
    (finaliseOne c clock n r).closed = n.closed ++ [closingOf c clock n.shared r] ∧
    (finaliseOne c clock n r).shared.reputationLog =
      n.shared.reputationLog ++ (closingOf c clock n.shared r).entries c ∧
    (finaliseOne c clock n r).outbox = n.outbox ++ (closingOf c clock n.shared r).deltas c := by
  obtain ⟨hpub, hplog⟩ := publishOutcome_frame c clock n r.2.2.outcome
  have hrew : rewardedVerifiers c.x (publishOutcome c clock n r.2.2.outcome).shared r.1
      r.2.2.outcome = rewardedVerifiers c.x n.shared r.1 r.2.2.outcome :=
    rewardedVerifiers_congr c.x hpub.verifications r.1 r.2.2.outcome
  obtain ⟨hs, hc, hl, ho⟩ := foldl_reward c clock (r.2.2.outcome.contentHash c.x)
    (rewardedVerifiers c.x n.shared r.1 r.2.2.outcome) (publishOutcome c clock n r.2.2.outcome)
  unfold finaliseOne
  simp only [hrew]
  refine ⟨⟨?_, ?_, ?_⟩, ?_, ?_, ?_⟩
  · exact hs.quorums.trans hpub.quorums
  · exact hs.verifications.trans hpub.verifications
  · exact hs.peerRegistry.trans hpub.peerRegistry
  · rw [hc]
    rfl
  · rw [hl, hplog]
    rfl
  · rw [ho]
    exact List.append_assoc ..

/-- **The loop of the tick.**  The history, the log and the outbox grow by one
block for each finalised quorum, in order. -/
theorem foldl_finaliseOne_blocks (c : Ctx W) (clock : Clock)
    (rs : List (ContentHash × Quorum W × FinalisedQuorum W)) (n : Node W) :
    SameVotes n (rs.foldl (finaliseOne c clock) n) ∧
    (rs.foldl (finaliseOne c clock) n).closed =
      n.closed ++ rs.map (closingOf c clock n.shared) ∧
    (rs.foldl (finaliseOne c clock) n).shared.reputationLog =
      n.shared.reputationLog ++ (rs.map (closingOf c clock n.shared)).flatMap (Closing.entries c) ∧
    (rs.foldl (finaliseOne c clock) n).outbox =
      n.outbox ++ (rs.map (closingOf c clock n.shared)).flatMap (Closing.deltas c) := by
  induction rs generalizing n with
  | nil => exact ⟨⟨rfl, rfl, rfl⟩, by simp, by simp, by simp⟩
  | cons r rs ih =>
    obtain ⟨hs, hc, hl, ho⟩ := finaliseOne_block c clock n r
    obtain ⟨hs', hc', hl', ho'⟩ := ih (finaliseOne c clock n r)
    -- the votes are those the tick started with, so every block is computed from them
    have hclos : closingOf c clock (finaliseOne c clock n r).shared =
        closingOf c clock n.shared := by
      funext r'
      simp only [closingOf, rewardedVerifiers_congr c.x hs.verifications]
    rw [List.foldl_cons]
    refine ⟨⟨?_, ?_, ?_⟩, ?_, ?_, ?_⟩
    · exact hs'.quorums.trans hs.quorums
    · exact hs'.verifications.trans hs.verifications
    · exact hs'.peerRegistry.trans hs.peerRegistry
    · rw [hc', hc, hclos, List.map_cons, List.append_assoc, List.singleton_append]
    · rw [hl', hl, hclos, List.map_cons, List.flatMap_cons, List.append_assoc]
    · rw [ho', ho, hclos, List.map_cons, List.flatMap_cons, List.append_assoc]

section Tick

variable [WeightArith W]

/-- What a tick closes, with the rewards it pays. -/
def newClosings (c : Ctx W) (clock : Clock) (n : Node W) : List (Closing W) :=
  (finalisedResults c clock n).map (closingOf c clock n.shared)

theorem runFinaliseTick_blocks (c : Ctx W) (clock : Clock) (n : Node W) :
    (runFinaliseTick c clock n).quorums = dropClosed c clock n.quorums ∧
    (runFinaliseTick c clock n).shared.verifications = n.shared.verifications ∧
    (runFinaliseTick c clock n).closed = n.closed ++ newClosings c clock n ∧
    (runFinaliseTick c clock n).shared.reputationLog =
      n.shared.reputationLog ++ (newClosings c clock n).flatMap (Closing.entries c) ∧
    (runFinaliseTick c clock n).outbox =
      n.outbox ++ (newClosings c clock n).flatMap (Closing.deltas c) := by
  obtain ⟨hs, hc, hl, ho⟩ := foldl_finaliseOne_blocks c clock (finalisedResults c clock n)
    { n with
      quorums := dropClosed c clock n.quorums
      readiness := (finalisedResults c clock n).foldl (fun t _ => t.taskFinished) n.readiness }
  exact ⟨hs.quorums, hs.verifications, hc, hl, ho⟩

/-- A closing of the tick comes from an open entry that is decided. -/
theorem mem_newClosings {c : Ctx W} {clock : Clock} {n : Node W} {cl : Closing W}
    (h : cl ∈ newClosings c clock n) :
    ∃ oq, (cl.resultHash, oq) ∈ n.quorums.entries.rows ∧
      tryClose c clock oq = some cl.finalised ∧ cl.quorum = oq.quorum ∧
      cl.rewarded = rewardedVerifiers c.x n.shared cl.resultHash cl.finalised.outcome := by
  obtain ⟨r, hr, rfl⟩ := List.mem_map.mp h
  obtain ⟨e, he, hf⟩ := List.mem_filterMap.mp hr
  obtain ⟨f, hclose, rfl⟩ := Option.map_eq_some_iff.mp hf
  exact ⟨e.2, he, hclose, rfl, rfl⟩

/-- No result is closed twice in one tick. -/
theorem newClosings_nodup (c : Ctx W) (clock : Clock) (n : Node W) :
    ((newClosings c clock n).map (·.resultHash)).Nodup := by
  have hsub : ((finalisedResults c clock n).map (·.1)).Sublist
      (n.quorums.entries.rows.map Prod.fst) := by
    unfold finalisedResults
    generalize n.quorums.entries.rows = rows
    induction rows with
    | nil => exact List.Sublist.refl _
    | cons e rows ih =>
      cases ht : tryClose c clock e.2 with
      | none =>
        rw [List.filterMap_cons, ht]
        exact ih.cons _
      | some f =>
        rw [List.filterMap_cons, ht]
        exact ih.cons_cons _
  rw [newClosings, List.map_map]
  exact n.quorums.entries.nodup.sublist hsub

/-- What is left after the tick: the entries that were open and stay undecided. -/
theorem mem_dropClosed {c : Ctx W} {clock : Clock}
    {quorums : LruCache ContentHash (OpenQuorum W)} {e : ContentHash × OpenQuorum W} :
    e ∈ (dropClosed c clock quorums).entries.rows ↔
      e ∈ quorums.entries.rows ∧ e.2.finalised = false ∧ tryClose c clock e.2 = none := by
  obtain ⟨k, oq⟩ := e
  simp only [dropClosed, LruCache.mem_retain, LruCache.mem_mapValues]
  constructor
  · rintro ⟨⟨w, hw, rfl⟩, hfin⟩
    cases ht : tryClose c clock w with
    | none => simp_all
    | some f => simp [ht] at hfin
  · rintro ⟨hmem, hfin, ht⟩
    refine ⟨⟨oq, hmem, by simp [ht]⟩, by simp [hfin]⟩

theorem tryClose_eq_some {c : Ctx W} {clock : Clock} {oq : OpenQuorum W} {f : FinalisedQuorum W}
    (h : tryClose c clock oq = some f) :
    oq.finalised = false ∧
      oq.quorum.tryFinalise c.x clock.wall (unixNow clock.wall) c.localPeerId c.signingKey =
        some f := by
  unfold tryClose at h
  cases hf : oq.finalised with
  | true => simp [hf] at h
  | false =>
    simp only [hf, Bool.false_eq_true, if_false] at h
    exact ⟨rfl, h⟩

/-! ## Open entries along a step -/

/-- The result hash whose quorum the step opens: that of an admitted result with
no open quorum, or of the node's own result. -/
def openedHash (c : Ctx W) (n : Node W) (s : Step W) : Option ContentHash :=
  match admittedResult c n s with
  | some r =>
    if (n.quorums.peek (r.contentHash c.x)).isSome then none else some (r.contentHash c.x)
  | none => (executedResult c n s).map Prod.snd

theorem mem_openQuorum {clock : Clock} {n : Node W} {specHash h rh : ContentHash}
    {oq : OpenQuorum W} (hmem : (rh, oq) ∈ (openQuorum clock n specHash h).quorums.entries.rows) :
    (rh, oq) ∈ n.quorums.entries.rows ∨
      (n.quorums.peek h = none ∧ rh = h ∧ oq = freshQuorum clock specHash h) := by
  simp only [openQuorum] at hmem
  have hfst := LruCache.get_fst n.quorums h
  have hsnd := fun e => @LruCache.mem_get _ _ _ n.quorums h e
  cases hp : n.quorums.get h with
  | mk found quorums =>
    rw [hp] at hfst hsnd
    cases found with
    | some w =>
      simp only [hp] at hmem
      exact Or.inl ((hsnd _).mp hmem)
    | none =>
      simp only [hp] at hmem
      rcases LruCache.mem_put hmem with he | ⟨he, -⟩
      · cases he
        exact Or.inr ⟨hfst.symm, rfl, rfl⟩
      · exact Or.inl ((hsnd _).mp he)

theorem mem_executeSpec {c : Ctx W} {clock : Clock} {n : Node W} {spec : JobSpec}
    {rh : ContentHash} {oq : OpenQuorum W}
    (hmem : (rh, oq) ∈ (executeSpec c clock n spec).quorums.entries.rows) :
    ((rh, oq) ∈ n.quorums.entries.rows ∧ rh ≠ (ownResult c clock spec).2) ∨
      (rh = (ownResult c clock spec).2 ∧ oq = freshQuorum clock (spec.contentHash c.x) rh) := by
  rcases LruCache.mem_put hmem with he | ⟨he, hne⟩
  · cases he
    exact Or.inr ⟨rfl, rfl⟩
  · exact Or.inl ⟨he, hne⟩

omit [WeightArith W] in
theorem mem_slotVote {x : Externals W} {n : Node W} {v : JobVerification} {key : VerifyingKey}
    {rh : ContentHash} {oq : OpenQuorum W}
    (hmem : (rh, oq) ∈ (slotVote x n v key).quorums.entries.rows) :
    ((rh, oq) ∈ n.quorums.entries.rows ∧ v.resultHash ≠ rh) ∨
      (v.resultHash = rh ∧ ∃ oq₀, (rh, oq₀) ∈ n.quorums.entries.rows ∧
        oq = { oq₀ with quorum := (oq₀.quorum.addVerification x v
          (voteWeight (n.shared.reputationOf v.verifier)) key).2 }) := by
  rcases LruCache.mem_getMut.mp hmem with ⟨oq₀, hold, he⟩ | ⟨hold, hne⟩
  · cases he
    exact Or.inr ⟨rfl, oq₀, hold, rfl⟩
  · exact Or.inl ⟨hold, fun h => hne h.symm⟩

/-- **Where an open entry comes from.**  After a step it was there before, or
was opened by the step, or is an old entry with the admitted vote offered to it. -/
theorem mem_quorums_step {c : Ctx W} {n : Node W} {s : Step W} {rh : ContentHash}
    {oq : OpenQuorum W} (h : (rh, oq) ∈ (step c n s).quorums.entries.rows) :
    (rh, oq) ∈ n.quorums.entries.rows ∨
    (openedHash c n s = some rh ∧ ∃ specHash, oq = freshQuorum s.clock specHash rh) ∨
    (∃ v key oq₀, admittedVote c n s = some (v, key) ∧ v.resultHash = rh ∧
      (rh, oq₀) ∈ n.quorums.entries.rows ∧ v.verifySignature c.x key = .ok () ∧
      oq = { oq₀ with quorum := (oq₀.quorum.addVerification c.x v
        (voteWeight (n.shared.reputationOf v.verifier)) key).2 }) := by
  have heff := step_effect c n s
  generalize step c n s = n' at h heff
  cases heff with
  | quiet hq =>
    rw [hq.quorums] at h
    exact Or.inl h
  | @opened n₁ r adm hq =>
    rcases mem_openQuorum h with hold | ⟨hpeek, rfl, rfl⟩
    · exact Or.inl (hq.quorums ▸ hold)
    · rw [hq.quorums] at hpeek
      exact Or.inr (Or.inl ⟨by simp [openedHash, adm, hpeek], r.specHash, rfl⟩)
  | @executed n₁ spec exe hq =>
    rcases mem_executeSpec h with ⟨hold, -⟩ | ⟨rfl, rfl⟩
    · exact Or.inl (hq.quorums ▸ hold)
    · have hnone : admittedResult c n s = none := admittedResult_of_executed exe
      exact Or.inr (Or.inl ⟨by rw [openedHash, hnone, exe]; rfl, spec.contentHash c.x, rfl⟩)
  | @voted n₁ v key adm hv =>
    rcases mem_slotVote h with ⟨hold, -⟩ | ⟨hrh, oq₀, hold, rfl⟩
    · exact Or.inl (hv.quorums ▸ hold)
    · refine Or.inr (Or.inr ⟨v, key, oq₀, adm, hrh, hv.quorums ▸ hold, hv.signature, ?_⟩)
      simp only [SharedState.reputationOf, hv.log]
  | ticked =>
    rw [(runFinaliseTick_blocks c s.clock n).1] at h
    exact Or.inl (mem_dropClosed.mp h).1

theorem cap_openQuorum (clock : Clock) (n : Node W) (specHash h : ContentHash) :
    (openQuorum clock n specHash h).quorums.cap = n.quorums.cap := by
  have hcap := LruCache.cap_get n.quorums h
  simp only [openQuorum]
  cases hget : n.quorums.get h with
  | mk found quorums =>
    rw [hget] at hcap
    cases found <;> exact hcap

/-- Opening keeps an open quorum and else starts a fresh one. -/
theorem peek_openQuorum (clock : Clock) {n : Node W} (hc : 0 < n.quorums.cap)
    (specHash h : ContentHash) :
    (openQuorum clock n specHash h).quorums.peek h =
      some ((n.quorums.peek h).getD (freshQuorum clock specHash h)) := by
  have hfst := LruCache.get_fst n.quorums h
  have hsnd := LruCache.peek_get n.quorums h h
  have hcap := LruCache.cap_get n.quorums h
  simp only [openQuorum]
  cases hget : n.quorums.get h with
  | mk found quorums =>
    rw [hget] at hfst hsnd hcap
    cases found with
    | none =>
      rw [← hfst]
      exact LruCache.peek_put_self (hcap ▸ hc) h _
    | some oq =>
      rw [← hfst]
      exact hsnd.trans hfst.symm

/-! ## The capacity, the directory and the readiness along a step -/

theorem cap_step (c : Ctx W) (n : Node W) (s : Step W) :
    (step c n s).quorums.cap = n.quorums.cap := by
  have heff := step_effect c n s
  generalize step c n s = n' at heff
  cases heff with
  | quiet h => rw [h.quorums]
  | opened _ h => rw [cap_openQuorum, h.quorums]
  | executed _ h =>
    rw [← h.quorums]
    rfl
  | voted _ h =>
    rw [← h.quorums]
    exact LruCache.cap_getMut ..
  | ticked =>
    rw [(runFinaliseTick_blocks c s.clock n).1]
    rfl

theorem cap_of_reachable {c : Ctx W} {n : Node W} (h : Reachable c n) :
    n.quorums.cap = openQuorumsLruCap := by
  obtain ⟨clock, listeners, shared, as, rfl⟩ := h
  have hstart : (Node.start c clock listeners shared).quorums.cap = openQuorumsLruCap := rfl
  exact run_invariant (I := fun n => n.quorums.cap = openQuorumsLruCap)
    (fun n s hn => (cap_step c n s).trans hn) hstart as

omit [WeightArith W] in
/-- The directory and the readiness are as they were. -/
structure SameFrame (n n' : Node W) : Prop where
  peerRegistry : n'.peerRegistry = n.peerRegistry
  readiness : n'.readiness = n.readiness

omit [WeightArith W] in
theorem admitSpec_frame (c : Ctx W) (clock : Clock) (n : Node W) (data : Bytes) :
    SameFrame n (admitSpec c clock n data).1 := by
  unfold admitSpec
  split
  · exact ⟨rfl, rfl⟩
  · split
    · exact ⟨rfl, rfl⟩
    · split <;> exact ⟨rfl, rfl⟩

omit [WeightArith W] in
theorem admitJobResult_frame (c : Ctx W) (clock : Clock) (n : Node W) (body : Bytes) :
    SameFrame n (admitJobResult c clock n body).1 := by
  unfold admitJobResult
  split
  · exact ⟨rfl, rfl⟩
  · split
    · exact ⟨rfl, rfl⟩
    · split
      · exact ⟨rfl, rfl⟩
      · dsimp only
        split
        · exact ⟨rfl, rfl⟩
        · split <;> exact ⟨rfl, rfl⟩

omit [WeightArith W] in
theorem admitVerification_frame (c : Ctx W) (clock : Clock) (n : Node W) (body : Bytes) :
    SameFrame n (admitVerification c clock n body).1 := by
  unfold admitVerification
  split
  · exact ⟨rfl, rfl⟩
  · split
    · exact ⟨rfl, rfl⟩
    · split
      · exact ⟨rfl, rfl⟩
      · split <;> exact ⟨rfl, rfl⟩

theorem handleTasksMessage_peerRegistry (c : Ctx W) (clock : Clock) (n : Node W) (m : Message) :
    (handleTasksMessage c clock n m).peerRegistry = n.peerRegistry := by
  have h := (admitSpec_frame c clock n m.data).peerRegistry
  unfold handleTasksMessage
  split
  · next heq =>
    rw [heq] at h
    exact h
  · next heq =>
    rw [heq] at h
    split <;> exact h

theorem handleVerifyMessage_frame (c : Ctx W) (clock : Clock) (n : Node W) (m : Message) :
    SameFrame n (handleVerifyMessage c clock n m) := by
  unfold handleVerifyMessage
  split
  · exact ⟨rfl, rfl⟩
  · next tag body _ =>
    split
    · have h := admitJobResult_frame c clock n body
      unfold handleInboundJobResult
      split <;> next heq => rw [heq] at h; exact ⟨h.peerRegistry, h.readiness⟩
    · split
      · have h := admitVerification_frame c clock n body
        unfold handleInboundVerification
        split <;> next heq => rw [heq] at h; exact ⟨h.peerRegistry, h.readiness⟩
      · exact ⟨rfl, rfl⟩

theorem runFinaliseTick_peerRegistry (c : Ctx W) (clock : Clock) (n : Node W) :
    (runFinaliseTick c clock n).peerRegistry = n.peerRegistry :=
  (foldl_finaliseOne_blocks c clock (finalisedResults c clock n)
    { n with
      quorums := dropClosed c clock n.quorums
      readiness := (finalisedResults c clock n).foldl (fun t _ => t.taskFinished) n.readiness
    }).1.peerRegistry

/-- Only capability messages and pruning write to the registry. -/
theorem peerRegistry_step (c : Ctx W) (n : Node W) (s : Step W)
    (hcaps : ∀ m, s.action ≠ .gossip .caps m) (hprune : s.action ≠ .prune) :
    (step c n s).peerRegistry = n.peerRegistry := by
  obtain ⟨clock, action⟩ := s
  cases action with
  | gossip topic m =>
    cases topic with
    | caps => exact absurd rfl (hcaps m)
    | tasks => exact handleTasksMessage_peerRegistry c clock n m
    | verify => exact (handleVerifyMessage_frame c clock n m).peerRegistry
    | stateDeltas => rfl
  | finaliseTick => exact runFinaliseTick_peerRegistry c clock n
  | drain => rfl
  | prune => exact absurd rfl hprune
  | stateSyncResponse r =>
    simp only [step, applyStateSyncResponse]
    split <;> rfl

end Tick

end Parseh.Miner
