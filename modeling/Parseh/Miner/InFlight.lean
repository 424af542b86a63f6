import Mathlib.Data.Finset.Card
import Mathlib.Data.Finset.Option
import Parseh.Miner.Execution

/-!
# Tasks in flight over whole runs

`in_flight` is raised by every execution and lowered by every finalised quorum,
whoever executed it.  What it should count is kept beside the node: the results
this node has produced whose quorum it has neither finalised nor dropped.

* `inFlight_step`: the counter along a step;
* `isOpen_step`: which quorums are open after a step;
* `inFlight_exact_iff`: over a run from an idle node the counter is exact exactly
  when no quorum of an own open result is displaced, and every tick closes own
  results only or all of them.
-/

namespace Parseh.Miner

open Parseh.Lib Parseh.Wire Parseh.Core Parseh.Shared Parseh.Verify

variable {W : Type} [WeightArith W]

/-! ## The counter along a step -/

/-- The results whose quorums the step finalises. -/
def closingHashes (c : Ctx W) (n : Node W) (s : Step W) : List ContentHash :=
  match s.action with
  | .finaliseTick => (finalisedResults c s.clock n).map Prod.fst
  | _ => []

omit [WeightArith W] in
theorem inFlight_foldl_taskFinished {A : Type} (l : List A) (t : ReadinessTracker) :
    (l.foldl (fun t _ => t.taskFinished) t).inFlight = t.inFlight - l.length := by
  induction l generalizing t with
  | nil => rfl
  | cons a l ih =>
    rw [List.foldl_cons, ih, List.length_cons]
    simp only [ReadinessTracker.taskFinished]
    omega

omit [WeightArith W] in
theorem readiness_foldl_rewardVerifier (c : Ctx W) (clock : Clock) (h : ContentHash)
    (ps : List PeerId) (n : Node W) :
    (ps.foldl (rewardVerifier c clock h) n).readiness = n.readiness := by
  induction ps generalizing n with
  | nil => rfl
  | cons p ps ih => exact ih (rewardVerifier c clock h n p)

omit [WeightArith W] in
theorem readiness_foldl_finaliseOne (c : Ctx W) (clock : Clock)
    (rs : List (ContentHash × Quorum W × FinalisedQuorum W)) (n : Node W) :
    (rs.foldl (finaliseOne c clock) n).readiness = n.readiness := by
  induction rs generalizing n with
  | nil => rfl
  | cons r rs ih =>
    rw [List.foldl_cons, ih]
    exact readiness_foldl_rewardVerifier ..

/-- **The counter along a step**: one more for an execution, one less for every
finalised quorum, down to zero. -/
theorem inFlight_step (c : Ctx W) (n : Node W) (s : Step W) :
    (step c n s).readiness.inFlight =
      n.readiness.inFlight + (executedResult c n s).toList.length -
        (closingHashes c n s).length := by
  obtain ⟨clock, action⟩ := s
  cases action with
  | gossip topic m =>
    cases topic with
    | tasks =>
      have hr := (admitSpec_frame c clock n m.data).readiness
      simp only [step, handleTasksMessage, executedResult, closingHashes]
      cases ha : admitSpec c clock n m.data with
      | mk n₁ o =>
        rw [ha] at hr
        dsimp only at hr
        cases o with
        | none => simp [hr]
        | some spec =>
          cases he : elected c n₁ spec with
          | false => simp [he, hr]
          | true => simp [he, executeSpec, ReadinessTracker.taskStarted, hr]
    | verify =>
      simp only [step, (handleVerifyMessage_frame c clock n m).readiness]
      rfl
    | _ => rfl
  | finaliseTick =>
    simp only [step, runFinaliseTick, readiness_foldl_finaliseOne, inFlight_foldl_taskFinished,
      closingHashes, List.length_map]
    rfl
  | stateSyncResponse r =>
    simp only [step, applyStateSyncResponse]
    split <;> rfl
  | _ => rfl

/-! ## The open quorums along a step -/

/-- Is the quorum of the result open? -/
def Node.isOpen (n : Node W) (rh : ContentHash) : Bool := (n.quorums.peek rh).isSome

omit [WeightArith W] in
theorem isOpen_iff {n : Node W} {rh : ContentHash} :
    n.isOpen rh = true ↔ ∃ oq, (rh, oq) ∈ n.quorums.entries.rows := by
  simp only [Node.isOpen, Option.isSome_iff_exists, LruCache.peek_eq_some_iff]

/-- The results whose open quorums the step overwrites or evicts. -/
def displacedHashes (c : Ctx W) (n : Node W) (s : Step W) : List ContentHash :=
  match openedHash c n s with
  | some rh => (n.quorums.displaced rh).map Prod.fst
  | none => []

theorem closingHashes_of_opened {c : Ctx W} {n : Node W} {s : Step W} {rh : ContentHash}
    (h : openedHash c n s = some rh) : closingHashes c n s = [] := by
  obtain ⟨clock, action⟩ := s
  cases action with
  | finaliseTick => cases h
  | _ => rfl

/-- Opening one quorum keeps the others open that it does not displace. -/
theorem isOpen_step_of_opened {c : Ctx W} {n : Node W} (hcap : 0 < n.quorums.cap) {s : Step W}
    {rh : ContentHash} (h : openedHash c n s = some rh) (g : ContentHash) :
    (step c n s).isOpen g = true ↔
      g = rh ∨ (n.isOpen g = true ∧ g ∉ (n.quorums.displaced rh).map Prod.fst) := by
  obtain ⟨sh, hrows⟩ := mem_quorums_of_opened hcap h
  simp only [isOpen_iff, hrows, Prod.mk.injEq]
  constructor
  · rintro ⟨oq, ⟨rfl, -⟩ | ⟨hold, hstay⟩⟩
    · exact Or.inl rfl
    · refine Or.inr ⟨⟨oq, hold⟩, fun hmem => ?_⟩
      obtain ⟨e, he, rfl⟩ := List.mem_map.mp hmem
      have hsame := n.quorums.entries.eq_of_key_eq hold (LruCache.mem_rows_of_displaced he) rfl
      exact hstay (hsame ▸ he)
  · rintro (rfl | ⟨⟨oq, hold⟩, hstay⟩)
    · exact ⟨_, Or.inl ⟨rfl, rfl⟩⟩
    · exact ⟨oq, Or.inr ⟨hold, fun he => hstay (List.mem_map.mpr ⟨_, he, rfl⟩)⟩⟩

/-- A tick closes exactly the quorums that are decided. -/
theorem isOpen_tick {c : Ctx W} {n : Node W} (hopen : OpenInv n) (clock : Clock)
    (g : ContentHash) :
    (runFinaliseTick c clock n).isOpen g = true ↔
      n.isOpen g = true ∧ g ∉ (finalisedResults c clock n).map Prod.fst := by
  simp only [isOpen_iff, (runFinaliseTick_blocks c clock n).1, mem_dropClosed]
  constructor
  · rintro ⟨oq, hold, -, hundecided⟩
    refine ⟨⟨oq, hold⟩, fun hmem => ?_⟩
    obtain ⟨r, hr, rfl⟩ := List.mem_map.mp hmem
    obtain ⟨e, he, hf⟩ := List.mem_filterMap.mp hr
    obtain ⟨f, hclose, rfl⟩ := Option.map_eq_some_iff.mp hf
    have hsame := n.quorums.entries.eq_of_key_eq hold he rfl
    rw [← hsame, hundecided] at hclose
    cases hclose
  · rintro ⟨⟨oq, hold⟩, hnot⟩
    refine ⟨oq, hold, (hopen g oq hold).pending, ?_⟩
    cases ht : tryClose c clock oq with
    | none => rfl
    | some f =>
      refine absurd (List.mem_map.mpr ⟨(g, oq.quorum, f), ?_, rfl⟩) hnot
      exact List.mem_filterMap.mpr ⟨(g, oq), hold, by simp [ht]⟩

/-- A result that is known already opens no quorum. -/
theorem isOpen_openQuorum {n : Node W} {clock : Clock} {specHash rh : ContentHash}
    (h : n.isOpen rh = true) (g : ContentHash) :
    (openQuorum clock n specHash rh).isOpen g = n.isOpen g := by
  obtain ⟨oq, hoq⟩ := Option.isSome_iff_exists.mp h
  have hkeep := LruCache.peek_get n.quorums rh g
  have hfst := LruCache.get_fst n.quorums rh
  simp only [Node.isOpen, openQuorum]
  cases hget : n.quorums.get rh with
  | mk found quorums =>
    rw [hget, hoq] at hfst
    cases hfst
    rw [hget] at hkeep
    exact congrArg Option.isSome hkeep

omit [WeightArith W] in
/-- A vote opens no quorum and closes none. -/
theorem isOpen_slotVote (x : Externals W) (n : Node W) (v : JobVerification) (key : VerifyingKey)
    (g : ContentHash) : (slotVote x n v key).isOpen g = n.isOpen g := by
  rw [Bool.eq_iff_iff, isOpen_iff, isOpen_iff]
  simp only [slotVote, LruCache.mem_getMut]
  constructor
  · rintro ⟨oq, ⟨oq₀, hold, heq⟩ | ⟨hold, -⟩⟩
    · cases heq
      exact ⟨oq₀, hold⟩
    · exact ⟨oq, hold⟩
  · rintro ⟨oq, hold⟩
    by_cases hg : g = v.resultHash
    · subst hg
      exact ⟨_, Or.inl ⟨oq, hold, rfl⟩⟩
    · exact ⟨oq, Or.inr ⟨hold, hg⟩⟩

/-- A step that neither opens a quorum nor ticks keeps the same ones open. -/
theorem isOpen_step_of_not_opened {c : Ctx W} {n : Node W} {s : Step W}
    (h : openedHash c n s = none) (htick : s.action ≠ .finaliseTick) (g : ContentHash) :
    (step c n s).isOpen g = n.isOpen g := by
  have heff := step_effect c n s
  generalize step c n s = n' at heff
  cases heff with
  | quiet hq => rw [Node.isOpen, hq.quorums, Node.isOpen]
  | @opened n₁ r adm hq =>
    have hpeek : n₁.isOpen (r.contentHash c.x) = true := by
      rw [Node.isOpen, hq.quorums]
      by_contra hnone
      simp [openedHash, adm, hnone] at h
    rw [isOpen_openQuorum hpeek, Node.isOpen, hq.quorums, Node.isOpen]
  | executed exe =>
    rw [openedHash_of_executed exe] at h
    cases h
  | voted _ hv => rw [isOpen_slotVote, Node.isOpen, hv.quorums, Node.isOpen]
  | ticked ht => exact absurd ht htick

/-- **Open quorums after a step**: the one it opens, and every old one that it
neither closes nor displaces. -/
theorem isOpen_step {c : Ctx W} {n : Node W} (hcap : 0 < n.quorums.cap) (hopen : OpenInv n)
    (s : Step W) (g : ContentHash) :
    (step c n s).isOpen g = true ↔ openedHash c n s = some g ∨
      (n.isOpen g = true ∧ g ∉ displacedHashes c n s ∧ g ∉ closingHashes c n s) := by
  cases ho : openedHash c n s with
  | some rh =>
    rw [isOpen_step_of_opened hcap ho, closingHashes_of_opened ho, displacedHashes, ho,
      Option.some.injEq, @eq_comm _ g rh]
    simp
  | none =>
    rw [displacedHashes, ho]
    by_cases ht : s.action = .finaliseTick
    · have hstep : step c n s = runFinaliseTick c s.clock n := by
        unfold step
        rw [ht]
      rw [hstep, isOpen_tick hopen, closingHashes, ht]
      simp
    · have hnone : closingHashes c n s = [] := by
        unfold closingHashes
        split
        · next h => exact absurd h ht
        · rfl
      rw [isOpen_step_of_not_opened ho ht, hnone]
      simp

/-! ## What the counter should count -/

/-- The node with the results it has produced as executor and whose quorum it has
neither finalised nor dropped since. -/
structure Tracked (W : Type) where
  node : Node W
  live : Finset ContentHash

/-- The result of an execution becomes live; a result ceases to be so with its
quorum. -/
def trackedStep (c : Ctx W) (t : Tracked W) (s : Step W) : Tracked W where
  node := step c t.node s
  live := (((executedResult c t.node s).map Prod.snd).toFinset ∪ t.live).filter
    fun h => (step c t.node s).isOpen h

omit [WeightArith W] in
/-- The counter is the number of live results. -/
def InFlightExact (t : Tracked W) : Prop := t.node.readiness.inFlight = t.live.card

omit [WeightArith W] in
instance (t : Tracked W) : Decidable (InFlightExact t) :=
  inferInstanceAs (Decidable (t.node.readiness.inFlight = t.live.card))

/-- The step displaces no live quorum, and closes live ones only or all of them. -/
def InFlightKept (c : Ctx W) (t : Tracked W) (s : Step W) : Prop :=
  (∀ h ∈ displacedHashes c t.node s, h ∉ t.live) ∧
    ((∀ h ∈ closingHashes c t.node s, h ∈ t.live) ∨ ∀ h ∈ t.live, h ∈ closingHashes c t.node s)

instance (c : Ctx W) (t : Tracked W) (s : Step W) : Decidable (InFlightKept c t s) :=
  inferInstanceAs (Decidable ((∀ h ∈ displacedHashes c t.node s, h ∉ t.live) ∧
    ((∀ h ∈ closingHashes c t.node s, h ∈ t.live) ∨
      ∀ h ∈ t.live, h ∈ closingHashes c t.node s)))

/-- What holds of a tracked node along every run. -/
structure TrackedInv (t : Tracked W) : Prop where
  entries : OpenInv t.node
  cap : t.node.quorums.cap = openQuorumsLruCap
  live : ∀ h ∈ t.live, t.node.isOpen h = true

theorem trackedInv_step (c : Ctx W) (t : Tracked W) (s : Step W) (h : TrackedInv t) :
    TrackedInv (trackedStep c t s) where
  entries := openInv_step c t.node s h.entries
  cap := (cap_step c t.node s).trans h.cap
  live _ hg := (Finset.mem_filter.mp hg).2

theorem TrackedInv.cap_pos {t : Tracked W} (h : TrackedInv t) : 0 < t.node.quorums.cap := by
  rw [h.cap]
  decide

/-- A live result that a step opens anew is displaced by it. -/
theorem displaced_of_opened {c : Ctx W} {t : Tracked W} (h : TrackedInv t) {s : Step W}
    {g : ContentHash} (hopened : openedHash c t.node s = some g) (hg : g ∈ t.live) :
    g ∈ displacedHashes c t.node s := by
  obtain ⟨oq, hoq⟩ := isOpen_iff.mp (h.live g hg)
  rw [displacedHashes, hopened]
  exact List.mem_map.mpr ⟨(g, oq), LruCache.mem_displaced.mpr (Or.inl ⟨hoq, rfl⟩), rfl⟩

/-- The live results that a step keeps. -/
def keptLive (c : Ctx W) (t : Tracked W) (s : Step W) : Finset ContentHash :=
  t.live.filter fun g => g ∉ displacedHashes c t.node s ∧ g ∉ closingHashes c t.node s

/-- **Live results after a step**: the executed one, and those it keeps. -/
theorem live_step {c : Ctx W} {t : Tracked W} (h : TrackedInv t) (s : Step W) :
    (trackedStep c t s).live =
      ((executedResult c t.node s).map Prod.snd).toFinset ∪ keptLive c t s := by
  ext g
  simp only [trackedStep, keptLive, Finset.mem_filter, Finset.mem_union, Option.mem_toFinset,
    Option.mem_def, isOpen_step h.cap_pos h.entries]
  constructor
  · rintro ⟨hex | hlive, hopen⟩
    · exact Or.inl hex
    · rcases hopen with hopened | ⟨-, hkept⟩
      · -- an inbound result opens a quorum only where none is open
        unfold openedHash at hopened
        split at hopened
        · split at hopened
          · cases hopened
          · next hpeek =>
            cases hopened
            exact absurd (h.live _ hlive) hpeek
        · exact Or.inl hopened
      · exact Or.inr ⟨hlive, hkept⟩
  · rintro (hex | ⟨hlive, hkept⟩)
    · obtain ⟨r, hr, rfl⟩ := Option.map_eq_some_iff.mp hex
      exact ⟨Or.inl hex, Or.inl (openedHash_of_executed hr)⟩
    · exact ⟨Or.inr hlive, Or.inr ⟨h.live g hlive, hkept⟩⟩

theorem card_live_step {c : Ctx W} {t : Tracked W} (h : TrackedInv t) (s : Step W) :
    (trackedStep c t s).live.card =
      (executedResult c t.node s).toList.length + (keptLive c t s).card := by
  rw [live_step h]
  cases hx : executedResult c t.node s with
  | none => simp
  | some r =>
    have hnew : r.2 ∉ keptLive c t s := by
      intro hmem
      obtain ⟨hlive, hkept, -⟩ := Finset.mem_filter.mp hmem
      exact hkept (displaced_of_opened h (openedHash_of_executed hx) hlive)
    rw [Option.map_some, Option.toFinset_some, Finset.singleton_union,
      Finset.card_insert_of_notMem hnew, Option.toList_some, List.length_singleton, Nat.add_comm]

omit [WeightArith W] in
/-- Taking away as many elements as `l` has is taking away those of `l` exactly
when one of the two contains the other. -/
theorem card_filter_eq_sub_iff {s : Finset ContentHash} {l : List ContentHash} (hl : l.Nodup) :
    s.card - l.length = (s.filter (· ∉ l)).card ↔ (∀ h ∈ l, h ∈ s) ∨ ∀ h ∈ s, h ∈ l := by
  have hcard : l.toFinset.card = l.length := List.toFinset_card_of_nodup hl
  have hfilter : s.filter (· ∉ l) = s \ l.toFinset := by
    ext h
    simp
  have hsub := Finset.card_sub_card_eq l.toFinset s
  have hleft : (l.toFinset \ s).card = 0 ↔ ∀ h ∈ l, h ∈ s := by
    rw [Finset.card_eq_zero, Finset.sdiff_eq_empty_iff_subset]
    exact ⟨fun h g hg => h (List.mem_toFinset.mpr hg), fun h g hg => h g (List.mem_toFinset.mp hg)⟩
  have hright : (s \ l.toFinset).card = 0 ↔ ∀ h ∈ s, h ∈ l := by
    rw [Finset.card_eq_zero, Finset.sdiff_eq_empty_iff_subset]
    exact ⟨fun h g hg => List.mem_toFinset.mp (h hg), fun h g hg => List.mem_toFinset.mpr (h g hg)⟩
  rw [hfilter, ← hleft, ← hright]
  omega

theorem closingHashes_nodup (c : Ctx W) (n : Node W) (s : Step W) :
    (closingHashes c n s).Nodup := by
  unfold closingHashes
  split
  · have hnodup := newClosings_nodup c s.clock n
    rw [newClosings, List.map_map] at hnodup
    exact hnodup
  · exact List.nodup_nil

/-- The counter stays exact in a step exactly under the guard. -/
theorem inFlightExact_step_iff {c : Ctx W} {t : Tracked W} (h : TrackedInv t)
    (hexact : InFlightExact t) (s : Step W) :
    InFlightExact (trackedStep c t s) ↔ InFlightKept c t s := by
  have hnode : (trackedStep c t s).node = step c t.node s := rfl
  unfold InFlightExact at hexact ⊢
  rw [card_live_step h, hnode, inFlight_step, hexact, InFlightKept]
  cases ho : openedHash c t.node s with
  | some rh =>
    -- nothing is closed: every live result has to stay
    have hclosing := closingHashes_of_opened ho
    have hkept : keptLive c t s = t.live.filter (· ∉ displacedHashes c t.node s) := by
      simp [keptLive, hclosing]
    have hall := Finset.card_filter_eq_iff (s := t.live) (p := (· ∉ displacedHashes c t.node s))
    rw [hkept, hclosing]
    simp only [List.length_nil, Nat.sub_zero, List.not_mem_nil, false_imp_iff, implies_true,
      true_or, and_true]
    constructor
    · intro heq g hg hlive
      exact hall.mp (by omega) g hlive hg
    · intro hdisp
      have hcard := hall.mpr fun g hlive hg => hdisp g hg hlive
      omega
  | none =>
    -- nothing is executed or displaced: the tick decides
    have hexec : executedResult c t.node s = none := by
      cases hx : executedResult c t.node s with
      | none => rfl
      | some r => cases (openedHash_of_executed hx).symm.trans ho
    have hdisp : displacedHashes c t.node s = [] := by rw [displacedHashes, ho]
    have hkept : keptLive c t s = t.live.filter (· ∉ closingHashes c t.node s) := by
      simp [keptLive, hdisp]
    rw [hkept, hexec, hdisp]
    simp only [Option.toList_none, List.length_nil, Nat.add_zero, Nat.zero_add, List.not_mem_nil,
      false_imp_iff, implies_true, true_and]
    exact card_filter_eq_sub_iff (closingHashes_nodup c t.node s)

omit [WeightArith W] in
/-- Ready, with nothing in flight and no open quorum. -/
structure Idle (n : Node W) : Prop where
  state : n.readiness.state = .ready
  inFlight : n.readiness.inFlight = 0
  quorums : n.quorums = LruCache.new openQuorumsLruCap

/-- **In-flight accounting.**  Over a run from an idle node, the counter is the
number of own open results in every state exactly when every step displaces no
quorum of an own open result, and closes only such quorums or all of them. -/
theorem inFlight_exact_iff (c : Ctx W) {n : Node W} (hidle : Idle n) (as : List (Step W)) :
    Guarded (trackedStep c) (fun t s => InFlightExact (trackedStep c t s)) ⟨n, ∅⟩ as ↔
      Guarded (trackedStep c) (InFlightKept c) ⟨n, ∅⟩ as := by
  have hstart : TrackedInv (⟨n, ∅⟩ : Tracked W) := by
    refine ⟨?_, by rw [hidle.quorums]; rfl, by simp⟩
    intro rh oq hmem
    rw [hidle.quorums] at hmem
    cases hmem
  exact guarded_iff (trackedInv_step c) (fun t s h => h)
    (fun t s hinv hexact => inFlightExact_step_iff hinv hexact s) hstart hidle.inFlight as

/-! ## Node 9 of the small network -/

section Small

/-- Node 9 when it has advertised itself. -/
def idleNode : Node ℚ :=
  { smallStart executorExternals with
    readiness := (smallStart executorExternals).readiness.markReady }

/-- Node 9 executes the spec, then five votes close the quorum of the result of
peer 1 before its own. -/
def foreignClosedRun : List (Step ℚ) :=
  [2, 11, 12, 13, 14, 15].map (fun n => atSecs 0 (hearAd n)) ++
    [atSecs 1 (hearSpec false), atSecs 1 (hearAd 1), atSecs 2 (hearResult false)] ++
    [11, 12, 13, 14, 15].map (fun n => atSecs 2 (hearVote false n)) ++
    [atSecs 10 .finaliseTick]

/-- The spec is delivered twice in one second; then its quorum closes. -/
def twiceStartedRun : List (Step ℚ) :=
  [atSecs 0 (hearAd 2), atSecs 1 (hearSpec false), atSecs 1 (hearSpec false),
    atSecs 40 .finaliseTick]

def trackedRun (as : List (Step ℚ)) : Tracked ℚ :=
  run (trackedStep (smallCtx executorExternals)) ⟨idleNode, ∅⟩ as

/-- The quorum of another executor lowers the counter to zero with an own result
open, and an overwritten quorum leaves it raised with none. -/
theorem inFlight_drifts :
    (trackedRun foreignClosedRun).node.readiness.inFlight = 0 ∧
    (trackedRun foreignClosedRun).live.card = 1 ∧
    (trackedRun twiceStartedRun).node.readiness.inFlight = 1 ∧
    (trackedRun twiceStartedRun).live.card = 0 := by
  decide +kernel

/-- With one execution and its own quorum closed, the counter is exact. -/
theorem single_execution_counted :
    Guarded (trackedStep (smallCtx executorExternals))
      (fun t s => InFlightExact (trackedStep (smallCtx executorExternals) t s)) ⟨idleNode, ∅⟩
      [atSecs 0 (hearAd 2), atSecs 1 (hearSpec false), atSecs 40 .finaliseTick] :=
  (inFlight_exact_iff (smallCtx executorExternals) ⟨rfl, rfl, rfl⟩ _).mpr (by decide +kernel)

end Small

end Parseh.Miner
