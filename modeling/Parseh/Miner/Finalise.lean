import Parseh.Miner.Effect

/-!
# Finalisation over whole runs

* `openInv_run`: in every reachable node an open entry is not finalised, carries
  the hash it is filed under, and has the standard configuration;
* `accounted_run`: the reputation log and the published deltas are exactly the
  blocks of the quorums closed so far, so counting closings counts outcomes and
  reward passes;
* `finalised_at_most_once`: a result is closed, published and rewarded at most
  once in every run that never re-admits or re-executes a result it has already
  closed.  Nothing else keeps a closed result from being opened again: the flag
  that should is dropped with the entry.
-/

namespace Parseh.Miner

open Parseh.Lib Parseh.Wire Parseh.Core Parseh.Shared Parseh.Verify

variable {W : Type} [WeightArith W]

/-! ## Open entries -/

/-- What holds of every entry of the cache. -/
structure EntryOk (rh : ContentHash) (oq : OpenQuorum W) : Prop where
  pending : oq.finalised = false
  filed : oq.quorum.resultHash = rh
  config : oq.quorum.config = .standard

def OpenInv (n : Node W) : Prop :=
  ∀ rh oq, (rh, oq) ∈ n.quorums.entries.rows → EntryOk rh oq

theorem entryOk_fresh (clock : Clock) (specHash rh : ContentHash) :
    EntryOk rh (freshQuorum clock specHash rh : OpenQuorum W) := ⟨rfl, rfl, rfl⟩

theorem openInv_step (c : Ctx W) (n : Node W) (s : Step W) (h : OpenInv n) :
    OpenInv (step c n s) := by
  intro rh oq hmem
  rcases mem_quorums_step hmem with hold | ⟨-, sh, rfl⟩ | ⟨v, key, oq₀, -, -, hold, -, rfl⟩
  · exact h rh oq hold
  · exact entryOk_fresh s.clock sh rh
  · obtain ⟨hp, hf, hc⟩ := h rh oq₀ hold
    obtain ⟨gc, gr, -, -⟩ := Quorum.addVerification_frame c.x oq₀.quorum v
      (voteWeight (n.shared.reputationOf v.verifier)) key
    exact ⟨hp, gr.trans hf, gc.trans hc⟩

theorem openInv_start (c : Ctx W) (clock : Clock) (listeners : List Multiaddr)
    (shared : SharedState) : OpenInv (Node.start c clock listeners shared) := by
  intro rh oq h
  cases h

theorem openInv_run (c : Ctx W) (clock : Clock) (listeners : List Multiaddr)
    (shared : SharedState) (as : List (Step W)) :
    OpenInv (run (step c) (Node.start c clock listeners shared) as) :=
  run_invariant (openInv_step c) (openInv_start c clock listeners shared) as

/-! ## Closings account for the log and the outbox -/

omit [WeightArith W] in
/-- A published state delta. -/
def Outbound.isDelta : Outbound W → Bool
  | .stateDelta _ => true
  | .jobResult _ => false

omit [WeightArith W] in
/-- A published outcome of the result `rh`. -/
def Outbound.isOutcomeFor (rh : ContentHash) : Outbound W → Bool
  | .stateDelta { kind := .outcome o, .. } => o.resultHash = rh
  | _ => false

/-- A step leaves history, log and published deltas alone, or it is a tick. -/
theorem history_step (c : Ctx W) (n : Node W) (s : Step W) :
    ((step c n s).closed = n.closed ∧
      (step c n s).shared.reputationLog = n.shared.reputationLog ∧
      (step c n s).outbox.filter (·.isDelta) = n.outbox.filter (·.isDelta)) ∨
    (s.action = .finaliseTick ∧ step c n s = runFinaliseTick c s.clock n) := by
  have heff := step_effect c n s
  generalize step c n s = n' at heff
  cases heff with
  | quiet h => exact Or.inl ⟨h.closed, h.log, by rw [h.outbox]⟩
  | opened _ h => exact Or.inl ⟨h.closed, h.log, by simp only [openQuorum, h.outbox]⟩
  | @executed n₁ spec _ h =>
    refine Or.inl ⟨h.closed, ?_, ?_⟩
    · simp only [executeSpec]
      cases hr : n₁.shared.recordResult c.x (ownResult c s.clock spec).1
          (Clock.unixI64 s.clock) with
      | error e => exact h.log
      | ok s' => exact (SharedState.recordResult_ok hr).2.2.2.2.trans h.log
    · simp [executeSpec, h.outbox, Outbound.isDelta]
  | voted _ h => exact Or.inl ⟨h.closed, h.log, by simp only [slotVote, h.outbox]⟩
  | ticked h => exact Or.inr ⟨h, rfl⟩

/-- The closings a step adds to the history. -/
def closedBy (c : Ctx W) (n : Node W) (s : Step W) : List (Closing W) :=
  (step c n s).closed.drop n.closed.length

theorem mem_closedBy {c : Ctx W} {n : Node W} {s : Step W} {cl : Closing W}
    (h : cl ∈ closedBy c n s) : s.action = .finaliseTick ∧ cl ∈ newClosings c s.clock n := by
  unfold closedBy at h
  rcases history_step c n s with ⟨hc, -, -⟩ | ⟨hact, htick⟩
  · rw [hc, List.drop_length] at h
    cases h
  · rw [htick, (runFinaliseTick_blocks c s.clock n).2.2.1, List.drop_left] at h
    exact ⟨hact, h⟩

theorem closedBy_tick (c : Ctx W) (n : Node W) {s : Step W} (h : s.action = .finaliseTick) :
    closedBy c n s = newClosings c s.clock n := by
  have hstep : step c n s = runFinaliseTick c s.clock n := by
    unfold step
    rw [h]
  rw [closedBy, hstep, (runFinaliseTick_blocks c s.clock n).2.2.1, List.drop_left]

/-- The log beyond `log₀` and the published deltas are the blocks of the closings. -/
structure Accounted (c : Ctx W) (log₀ : List ReputationEntry) (n : Node W) : Prop where
  log : n.shared.reputationLog = log₀ ++ n.closed.flatMap (Closing.entries c)
  outbox : n.outbox.filter (·.isDelta) = n.closed.flatMap (Closing.deltas c)

omit [WeightArith W] in
theorem Closing.deltas_isDelta (c : Ctx W) (cl : Closing W) :
    (cl.deltas c).filter (·.isDelta) = cl.deltas c := by
  refine List.filter_eq_self.mpr fun d hd => ?_
  rcases List.mem_cons.mp hd with rfl | hd
  · rfl
  · obtain ⟨p, -, rfl⟩ := List.mem_map.mp hd
    rfl

theorem accounted_step (c : Ctx W) (log₀ : List ReputationEntry) (n : Node W) (s : Step W)
    (h : Accounted c log₀ n) : Accounted c log₀ (step c n s) := by
  rcases history_step c n s with ⟨hc, hl, ho⟩ | ⟨-, htick⟩
  · exact ⟨by rw [hl, hc, h.log], by rw [ho, hc, h.outbox]⟩
  · obtain ⟨-, -, hc, hl, ho⟩ := runFinaliseTick_blocks c s.clock n
    have hself : ((newClosings c s.clock n).flatMap (Closing.deltas c)).filter (·.isDelta) =
        (newClosings c s.clock n).flatMap (Closing.deltas c) := by
      rw [List.filter_flatMap]
      simp only [Closing.deltas_isDelta]
    rw [htick]
    constructor
    · rw [hl, hc, h.log, List.flatMap_append, List.append_assoc]
    · rw [ho, hc, List.filter_append, h.outbox, List.flatMap_append, hself]

theorem accounted_run (c : Ctx W) (clock : Clock) (listeners : List Multiaddr)
    (shared : SharedState) (as : List (Step W)) :
    Accounted c shared.reputationLog
      (run (step c) (Node.start c clock listeners shared) as) :=
  run_invariant (accounted_step c shared.reputationLog)
    (show Accounted c shared.reputationLog (Node.start c clock listeners shared) from
      ⟨by simp [Node.start], by simp [Node.start]⟩) as

/-! ## Every closing comes from an open entry -/

/-- What holds of every closing. -/
structure ClosingOk (cl : Closing W) : Prop where
  filed : cl.quorum.resultHash = cl.resultHash
  config : cl.quorum.config = .standard
  outcome : cl.finalised.outcome.resultHash = cl.resultHash ∧
    cl.finalised.outcome.specHash = cl.quorum.specHash
  decided : ∃ now, cl.quorum.decision now = some cl.finalised.decision ∧
    cl.quorum.outcomeVerdict cl.finalised.decision = some cl.finalised.outcome.verdict

theorem closingOk_of_open {c : Ctx W} {clock : Clock} {n : Node W} (hopen : OpenInv n)
    {cl : Closing W} (h : cl ∈ newClosings c clock n) : ClosingOk cl := by
  obtain ⟨oq, hmem, hclose, hq, -⟩ := mem_newClosings h
  obtain ⟨-, hfiled, hconfig⟩ := hopen _ _ hmem
  obtain ⟨-, hfin⟩ := tryClose_eq_some hclose
  obtain ⟨dec, verdict, hdec, hverd, hf⟩ := Quorum.tryFinalise_eq_some_iff.mp hfin
  rw [← hq] at hfiled hconfig hdec hverd hf
  exact ⟨hfiled, hconfig, by rw [hf]; exact ⟨hfiled, rfl⟩, clock.wall, by rw [hf]; exact hdec,
    by rw [hf]; exact hverd⟩

theorem closingOk_run (c : Ctx W) (clock : Clock) (listeners : List Multiaddr)
    (shared : SharedState) (as : List (Step W)) :
    ∀ cl ∈ (run (step c) (Node.start c clock listeners shared) as).closed, ClosingOk cl := by
  have hinv : OpenInv (run (step c) (Node.start c clock listeners shared) as) ∧
      ∀ cl ∈ (run (step c) (Node.start c clock listeners shared) as).closed, ClosingOk cl := by
    refine run_invariant (I := fun n => OpenInv n ∧ ∀ cl ∈ n.closed, ClosingOk cl) ?_
      ⟨openInv_start c clock listeners shared, by simp [Node.start]⟩ as
    rintro n s ⟨hopen, hcl⟩
    refine ⟨openInv_step c n s hopen, ?_⟩
    rcases history_step c n s with ⟨hc, -, -⟩ | ⟨-, htick⟩
    · rw [hc]
      exact hcl
    · rw [htick, (runFinaliseTick_blocks c s.clock n).2.2.1]
      intro cl h
      rcases List.mem_append.mp h with h | h
      · exact hcl cl h
      · exact closingOk_of_open hopen h
  exact hinv.2

/-! ## One finalisation per result -/

/-- The step opens no quorum for a result that was closed before. -/
def FreshResults (c : Ctx W) (n : Node W) (s : Step W) : Prop :=
  ∀ rh ∈ openedHash c n s, rh ∉ n.closed.map (·.resultHash)

instance (c : Ctx W) (n : Node W) (s : Step W) : Decidable (FreshResults c n s) :=
  inferInstanceAs (Decidable (∀ rh ∈ openedHash c n s, rh ∉ n.closed.map (·.resultHash)))

/-- Open results have not been closed, and no result was closed twice. -/
structure ClosedOnce (n : Node W) : Prop where
  disjoint : ∀ rh oq, (rh, oq) ∈ n.quorums.entries.rows → rh ∉ n.closed.map (·.resultHash)
  nodup : (n.closed.map (·.resultHash)).Nodup

theorem closedOnce_tick (c : Ctx W) (clock : Clock) (n : Node W) (h : ClosedOnce n) :
    ClosedOnce (runFinaliseTick c clock n) := by
  obtain ⟨hq, -, hc, -, -⟩ := runFinaliseTick_blocks c clock n
  constructor
  · intro rh oq hmem
    rw [hq] at hmem
    obtain ⟨hold, -, hundecided⟩ := mem_dropClosed.mp hmem
    rw [hc, List.map_append, List.mem_append]
    rintro (hin | hin)
    · exact h.disjoint rh oq hold hin
    · -- closed just now: then the entry under this key was decided
      obtain ⟨cl, hcl, rfl⟩ := List.mem_map.mp hin
      obtain ⟨oq', hmem', hclose, -, -⟩ := mem_newClosings hcl
      have heq := n.quorums.entries.eq_of_key_eq hold hmem' rfl
      cases heq
      rw [hundecided] at hclose
      cases hclose
  · rw [hc, List.map_append, List.nodup_append]
    refine ⟨h.nodup, newClosings_nodup c clock n, ?_⟩
    rintro a ha b hb rfl
    obtain ⟨cl, hcl, rfl⟩ := List.mem_map.mp hb
    obtain ⟨oq, hmem, -, -, -⟩ := mem_newClosings hcl
    exact h.disjoint _ oq hmem ha

theorem closedOnce_step (c : Ctx W) (n : Node W) (s : Step W) (hg : FreshResults c n s)
    (h : ClosedOnce n) : ClosedOnce (step c n s) := by
  rcases history_step c n s with ⟨hc, -, -⟩ | ⟨-, htick⟩
  · constructor
    · intro rh oq hmem
      rw [hc]
      rcases mem_quorums_step hmem with hold | ⟨hopens, -⟩ | ⟨-, -, oq₀, -, -, hold, -⟩
      · exact h.disjoint rh oq hold
      · exact hg rh hopens
      · exact h.disjoint rh oq₀ hold
    · rw [hc]
      exact h.nodup
  · rw [htick]
    exact closedOnce_tick c s.clock n h

/-- A closing publishes one outcome for its own result and none for another. -/
theorem Closing.countP_outcomes (c : Ctx W) {cl : Closing W} (h : ClosingOk cl)
    (rh : ContentHash) :
    (cl.deltas c).countP (Outbound.isOutcomeFor rh) = if cl.resultHash = rh then 1 else 0 := by
  have hrest : (cl.rewarded.map fun p =>
      (Outbound.stateDelta (signDelta c.x (StateDelta.unsigned (.reputation p 5 "verifier_agreed"
        (some (cl.finalised.outcome.contentHash c.x))) c.localPeerId (unixNow cl.clock.wall))
        c.signingKey) : Outbound W)).countP (Outbound.isOutcomeFor rh) = 0 := by
    rw [List.countP_eq_zero]
    intro d hd
    obtain ⟨p, -, rfl⟩ := List.mem_map.mp hd
    simp [Outbound.isOutcomeFor, signDelta, StateDelta.unsigned]
  rw [Closing.deltas, List.countP_cons, hrest]
  simp [Outbound.isOutcomeFor, signDelta, StateDelta.unsigned, h.outcome.1]

/-- Published outcomes of a result are its closings. -/
theorem countP_outcomes_eq (c : Ctx W) (rh : ContentHash) (cls : List (Closing W))
    (h : ∀ cl ∈ cls, ClosingOk cl) :
    (cls.flatMap (Closing.deltas c)).countP (Outbound.isOutcomeFor rh) =
      cls.countP fun cl => cl.resultHash = rh := by
  induction cls with
  | nil => rfl
  | cons cl cls ih =>
    rw [List.flatMap_cons, List.countP_append, ih fun d hd => h d (List.mem_cons_of_mem cl hd),
      Closing.countP_outcomes c (h cl List.mem_cons_self), List.countP_cons]
    by_cases hrh : cl.resultHash = rh <;> simp [hrh, Nat.add_comm]

omit [WeightArith W] in
theorem countP_le_one {cls : List (Closing W)} (h : (cls.map (·.resultHash)).Nodup)
    (rh : ContentHash) : (cls.countP fun cl => cl.resultHash = rh) ≤ 1 := by
  have hcount := List.nodup_iff_count_le_one.mp h rh
  rw [List.count, List.countP_map] at hcount
  refine le_trans (le_of_eq (List.countP_congr fun cl _ => ?_)) hcount
  simp

/-- **At most one finalisation.**  In every run that opens no quorum for a result
already closed, each result is closed at most once, at most one outcome is
published for it, and the rewards in the log are those of the closings. -/
theorem finalised_at_most_once (c : Ctx W) (clock : Clock) (listeners : List Multiaddr)
    (shared : SharedState) (as : List (Step W))
    (hg : Guarded (step c) (FreshResults c) (Node.start c clock listeners shared) as)
    (rh : ContentHash) :
    ((run (step c) (Node.start c clock listeners shared) as).closed.countP
      fun cl => cl.resultHash = rh) ≤ 1 ∧
    (run (step c) (Node.start c clock listeners shared) as).outbox.countP
      (Outbound.isOutcomeFor rh) ≤ 1 ∧
    (run (step c) (Node.start c clock listeners shared) as).shared.reputationLog =
      shared.reputationLog ++
        (run (step c) (Node.start c clock listeners shared) as).closed.flatMap
          (Closing.entries c) := by
  have honce := hg.invariant (closedOnce_step c)
    (show ClosedOnce (Node.start c clock listeners shared) from
      ⟨fun rh oq h => (by cases h), List.nodup_nil⟩)
  have hacc := accounted_run c clock listeners shared as
  have hok := closingOk_run c clock listeners shared as
  generalize run (step c) (Node.start c clock listeners shared) as = n at honce hacc hok ⊢
  have hclosed := countP_le_one honce.nodup rh
  refine ⟨hclosed, ?_, hacc.log⟩
  have hfilter : n.outbox.countP (Outbound.isOutcomeFor rh) =
      (n.outbox.filter (·.isDelta)).countP (Outbound.isOutcomeFor rh) := by
    rw [List.countP_filter]
    refine List.countP_congr fun d _ => ?_
    cases d <;> simp [Outbound.isDelta, Outbound.isOutcomeFor]
  rw [hfilter, hacc.outbox, countP_outcomes_eq c rh n.closed hok]
  exact hclosed

/-! ## The small network at a node

`peerOf 9` is the local node; time is counted in seconds. -/

section Small

def smallCtx (x : Externals ℚ) : Ctx ℚ := ⟨x, peerOf 9, keyOf 9, (keyOf 9).verifyingKey⟩

def smallStart (x : Externals ℚ) : Node ℚ := Node.start (smallCtx x) ⟨0, 0⟩ [] .empty

def atSecs (t : Nat) (a : Action ℚ) : Step ℚ := ⟨⟨fromSecs t, fromSecs t⟩, a⟩

def hearAd (n : UInt8) : Action ℚ := .gossip .caps ⟨some (peerOf n), adBytes n⟩

def hearSpec (sensitive : Bool) : Action ℚ :=
  .gossip .tasks ⟨some (peerOf 2), specBytes sensitive⟩

def hearResult (sensitive : Bool) : Action ℚ :=
  .gossip .verify ⟨some (peerOf 1), tagJobResult :: resultBytes sensitive⟩

def hearVote (agrees : Bool) (n : UInt8) : Action ℚ :=
  .gossip .verify ⟨some (peerOf n), tagJobVerification :: voteBytes agrees n⟩

/-- The advertisements of `peers`, then the spec and its result. -/
def smallTask (sensitive : Bool) (peers : List UInt8) : List (Step ℚ) :=
  peers.map (fun n => atSecs 0 (hearAd n)) ++
    [atSecs 1 (hearSpec sensitive), atSecs 1 (hearResult sensitive)]

/-- A result is heard, its window closes, the same message is heard again, and
the next tick closes the same result a second time. -/
def replayedRun : List (Step ℚ) :=
  smallTask false [1, 2] ++
    [atSecs 40 .finaliseTick, atSecs 41 (hearResult false), atSecs 80 .finaliseTick]

/-- The replay makes the node close the result and publish its outcome twice. -/
theorem replayed_finalised_twice :
    ((run (step (smallCtx (.small false [1, 2] [] []))) (smallStart (.small false [1, 2] [] []))
      replayedRun).closed.countP fun cl => cl.resultHash = smallResultHash false) = 2 ∧
    (run (step (smallCtx (.small false [1, 2] [] []))) (smallStart (.small false [1, 2] [] []))
      replayedRun).outbox.countP (Outbound.isOutcomeFor (smallResultHash false)) = 2 := by
  decide +kernel

/-- Without the replay the same run is within the condition. -/
theorem single_delivery_finalised_once :
    ((run (step (smallCtx (.small false [1, 2] [] []))) (smallStart (.small false [1, 2] [] []))
      (smallTask false [1, 2] ++ [atSecs 40 .finaliseTick])).closed.countP
        fun cl => cl.resultHash = smallResultHash false) ≤ 1 :=
  (finalised_at_most_once (smallCtx (.small false [1, 2] [] [])) ⟨0, 0⟩ [] .empty
    (smallTask false [1, 2] ++ [atSecs 40 .finaliseTick]) (by decide +kernel)
    (smallResultHash false)).1

end Small

end Parseh.Miner
