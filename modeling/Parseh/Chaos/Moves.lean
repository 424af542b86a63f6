import Mathlib.Logic.Relation
import Parseh.Chaos.NodeLoop

/-!
# What one turn of a harness node can do

A turn is a sequence of moves.  Each constructor of `Move` is one write of the
event loop together with what the node had checked before it: who had signed
what, which task it concerns, and which event brought it.  `step_moves` shows
that every turn is such a sequence, so an invariant of the node is proved move by
move and never unfolds a handler.
-/

namespace Parseh.Chaos

open Parseh.Lib Parseh.Wire Parseh.Core Parseh.Shared Parseh.Verify Parseh.Miner

variable {W : Type}

namespace NodeLoop

/-! ## What an event carries -/

/-- The body of a `parseh.verify.v1` message with this tag. -/
def verifyBody (tag : UInt8) : Event W → Option Bytes
  | .gossip _ .verify (t :: body) _ => if t = tag then some body else none
  | _ => none

/-- The result the event delivers. -/
def carriedResult (x : Externals W) (e : Event W) : Option JobResult :=
  (verifyBody tagJobResult e).bind x.resultCbor.decode

/-- The vote the event delivers. -/
def carriedVote (x : Externals W) (e : Event W) : Option JobVerification :=
  (verifyBody tagJobVerification e).bind x.verificationCbor.decode

/-- The spec the event submits or delivers. -/
def carriedSpec (x : Externals W) : Event W → Option JobSpec
  | .submit spec => some spec
  | .gossip _ .tasks data _ => x.specCbor.decode data
  | _ => none

/-- The advertisement the event delivers. -/
def carriedAd (x : Externals W) : Event W → Option CapabilityAdvertisement
  | .gossip _ .caps data _ => x.advertisementCbor.decode data
  | _ => none

/-! ## Licences -/

/-- The vote came in and verified under the key registered for its verifier. -/
structure Delivered (c : Ctx W) (e : Event W) (n : NodeLoop W) (v : JobVerification) : Prop where
  carried : carriedVote c.x e = some v
  signed : ∃ key, n.registry.verifyingKey v.verifier = some key ∧
    v.verifySignature c.x key = .ok ()

/-- The node signed the vote itself. -/
def Cast (n : NodeLoop W) (v : JobVerification) : Prop := ∃ b ∈ n.ballots, b.vote = v

/-- The result came in, or the node produced it for a spec the event carries. -/
def Produced (c : Ctx W) (e : Event W) (result : JobResult) : Prop :=
  carriedResult c.x e = some result ∨
    ∃ clock spec, carriedSpec c.x e = some spec ∧ result = ownResult c clock spec

/-- The task row `t` collects votes in `q`. -/
structure Tracking (x : Externals W) (n : NodeLoop W) (t : TaskState W) (q : Quorum W)
    (resultHash : ContentHash) : Prop where
  mem : t ∈ n.tasks.rows
  quorum : t.quorum = some q
  observed : ∃ r, t.observedResult = some r ∧ r.contentHash x = resultHash

/-! ## Moves -/

/-- One write of a turn that handles the event `e`. -/
inductive Move [WeightArith W] (c : Ctx W) (e : Event W) : NodeLoop W → NodeLoop W → Prop
  | spec {n : NodeLoop W} (clock : Clock) (spec : JobSpec) (h : carriedSpec c.x e = some spec) :
    Move c e n (n.recordSpec c clock spec)
  | result {n : NodeLoop W} (clock : Clock) (result : JobResult) (h : Produced c e result) :
    Move c e n (n.recordResult c clock result)
  | storeVote {n : NodeLoop W} (clock : Clock) (v : JobVerification) (shared : SharedState)
      (count : ContentHash → UInt32)
      (h : n.shared.recordVerification c.x v (Clock.unixI64 clock) = .ok shared) :
    Move c e n { n with shared, verificationsByResult := count }
  | addVote {n : NodeLoop W} (t : TaskState W) (q q' : Quorum W) (v : JobVerification)
      (key : VerifyingKey) (ht : Tracking c.x n t q v.resultHash)
      (hv : Delivered c e n v ∨ Cast n v)
      (hadd : q.addVerification c.x v harnessReputation key = (.ok (), q')) :
    Move c e n (n.updateTask t.specHash (fun t => { t with quorum := some q' }) fun _ => rfl)
  | close {n : NodeLoop W} (clock : Clock) (t : TaskState W) (q : Quorum W) (f : FinalisedQuorum W)
      (ht : t ∈ n.tasks.rows) (hopen : t.finalised = false) (hq : t.quorum = some q)
      (hf : q.tryFinalise c.x clock.wall (unixNow clock.wall) c.localPeerId c.signingKey = some f) :
    Move c e n ((n.closeTask t q f).recordOutcome c clock f.outcome).2
  | outcome {n : NodeLoop W} (clock : Clock) (o : JobOutcome W) :
    Move c e n (n.recordOutcome c clock o).2
  | reputation {n : NodeLoop W} (clock : Clock) (peer : PeerId) (delta : Int32) (reason : String)
      (relatedHash : Option ContentHash) :
    Move c e n (n.applyReputation clock peer delta reason relatedHash)
  | markExecuted {n : NodeLoop W} (hash : ContentHash) :
    Move c e n (n.updateTask hash (fun t => { t with selfExecuted := true }) fun _ => rfl)
  | sign {n : NodeLoop W} (clock : Clock) (coin : Bool) (t : TaskState W) (result : JobResult)
      (verdict : VerifierVerdict) (hres : carriedResult c.x e = some result)
      (hne : result.executor ≠ c.localPeerId) (ht : t ∈ n.tasks.rows)
      (hspec : t.specHash = result.specHash)
      (hverdict : verdictOn c coin t.spec result = .ok verdict) :
    Move c e n (n.signVote c clock t.spec result verdict)
  | publishVote {n : NodeLoop W} (v : JobVerification) (h : Cast n v) :
    Move c e n (n.publish (.verification v))
  | publishOther {n : NodeLoop W} (p : Published W) (h : ∀ v, p ≠ .verification v) :
    Move c e n (n.publish p)
  | advertisement {n : NodeLoop W} (ad : CapabilityAdvertisement) (h : carriedAd c.x e = some ad) :
    Move c e n { n with registry := (n.registry.upsert c.x ad).2 }
  | readiness {n : NodeLoop W} (r : ReadinessState) : Move c e n { n with readiness := r }
  | synced {n : NodeLoop W} (clock : Clock) (o : JobOutcome W) :
    Move c e n (n.applySynced c clock o)

/-- A sequence of moves. -/
abbrev Moves [WeightArith W] (c : Ctx W) (e : Event W) :=
  Relation.ReflTransGen (Move c e)

/-- What every move keeps, a sequence of moves keeps. -/
theorem Moves.invariant [WeightArith W] {c : Ctx W} {e : Event W} {I : NodeLoop W → Prop}
    (hmove : ∀ n n', Move c e n n' → I n → I n') {n n' : NodeLoop W} (h : Moves c e n n')
    (hn : I n) : I n' := by
  induction h with
  | refl => exact hn
  | tail _ hm ih => exact hmove _ _ hm ih

section

variable [WeightArith W] {c : Ctx W} {e : Event W} {n n' : NodeLoop W}

/-! ## Every handler is a sequence of moves -/

omit [WeightArith W] in
theorem mem_of_find? {t : TaskState W} {p : TaskState W → Bool} (h : n.tasks.rows.find? p = some t) :
    t ∈ n.tasks.rows ∧ p t = true := ⟨List.mem_of_find?_eq_some h, List.find?_some h⟩

theorem moves_tryFinaliseQuorum (clock : Clock) (n : NodeLoop W) (specHash : ContentHash) :
    Moves c e n (n.tryFinaliseQuorum c clock specHash).2 := by
  unfold tryFinaliseQuorum
  split
  · exact .refl
  · next t ht =>
    split
    · next hopen hq =>
      split
      · exact .refl
      · next f hf => exact .single (.close clock t _ f (Keyed.find?_eq_some_iff.mp ht).1 hopen hq hf)
    · exact .refl

theorem moves_slotVerification (clock : Clock) {v : JobVerification}
    (hv : Delivered c e n v ∨ Cast n v) :
    Moves c e n (n.slotVerification c clock v).2 := by
  unfold slotVerification
  split
  · exact .refl
  · next t ht =>
    obtain ⟨hmem, htracks⟩ := mem_of_find? ht
    split
    · next key q hkey hq =>
      split
      · exact .refl
      · next q' hadd =>
        have hobs : ∃ r, t.observedResult = some r ∧ r.contentHash c.x = v.resultHash := by
          simp only [tracks, Bool.and_eq_true, Option.any_eq_true, decide_eq_true_iff] at htracks
          exact htracks.1
        have hmove : Move c e n _ := .addVote t q q' v key ⟨hmem, hq, hobs⟩ hv hadd
        dsimp only
        split
        · exact .single hmove
        · exact .head hmove (moves_tryFinaliseQuorum ..)
    · exact .refl

theorem moves_recordVerification (clock : Clock) {v : JobVerification}
    (hv : Delivered c e n v ∨ Cast n v) :
    Moves c e n (n.recordVerification c clock v).2 := by
  unfold recordVerification
  split
  · exact .refl
  · next shared hok =>
    refine .head (.storeVote clock v shared _ hok) (moves_slotVerification clock ?_)
    -- storing the vote touches neither the registry nor the ballots
    rcases hv with h | h
    · exact Or.inl ⟨h.carried, h.signed⟩
    · exact Or.inr h

/-! ## Frames -/

omit [WeightArith W] in
theorem recordOutcome_frame (clock : Clock) (n : NodeLoop W) (o : JobOutcome W) :
    (n.recordOutcome c clock o).2 =
      { n with
        shared := n.shared.orKeep (n.shared.recordOutcome c.x o (Clock.unixI64 clock))
        offered := n.offered ++ [o] } := by
  unfold recordOutcome
  split
  · next h => rw [h]; rfl
  · next h => rw [h]; rfl

/-- A signed ballot is kept. -/
theorem Move.ballots_subset (h : Move c e n n') : n.ballots ⊆ n'.ballots := by
  cases h with
  | result =>
    unfold recordResult
    split <;> exact List.Subset.refl _
  | close clock t q f =>
    rw [recordOutcome_frame]
    exact List.Subset.refl _
  | outcome clock o =>
    rw [recordOutcome_frame]
    exact List.Subset.refl _
  | reputation =>
    unfold applyReputation
    split <;> exact List.Subset.refl _
  | synced =>
    unfold applySynced
    split <;> exact List.Subset.refl _
  | sign => exact List.subset_append_left _ _
  | spec | storeVote | addVote | markExecuted | publishVote | publishOther | advertisement
  | readiness => exact List.Subset.refl _

theorem Moves.ballots_subset (h : Moves c e n n') : n.ballots ⊆ n'.ballots :=
  Moves.invariant (I := fun m => n.ballots ⊆ m.ballots)
    (fun _ _ hm hsub => List.Subset.trans hsub hm.ballots_subset) h (List.Subset.refl _)

/-! ## The remaining handlers -/

theorem moves_foldl {α : Type} {f : NodeLoop W → α → NodeLoop W}
    (hf : ∀ n a, Moves c e n (f n a)) (l : List α) (n : NodeLoop W) : Moves c e n (l.foldl f n) := by
  induction l generalizing n with
  | nil => exact .refl
  | cons a l ih => exact (hf n a).trans (ih _)

theorem moves_settle (clock : Clock) (n : NodeLoop W) (result : JobResult)
    (outcomeHash : ContentHash) : Moves c e n (n.settle c.x clock result outcomeHash) := by
  refine .head (.reputation ..) (moves_foldl (fun n v => ?_) _ _)
  unfold settleVote
  split
  · exact .single (.reputation ..)
  · exact .single (.reputation ..)
  · exact .refl

theorem moves_announce (clock : Clock) (n : NodeLoop W) (executor : PeerId) (o : JobOutcome W) :
    Moves c e n (n.announce c clock executor o) := by
  have hout : Move c e n (n.publishDelta c clock (.outcome o)) := .publishOther _ fun _ => nofun
  unfold announce
  dsimp only
  split
  · exact .head hout (.single (.publishOther _ fun _ => nofun))
  · exact .single hout

theorem moves_publishOutcomeAndRep (clock : Clock) (n : NodeLoop W) (specHash : ContentHash) :
    Moves c e n (n.publishOutcomeAndRep c clock specHash).2 := by
  unfold publishOutcomeAndRep
  split
  · exact .refl
  · split
    · next result _ _ =>
      split
      · exact .refl
      · exact .refl
      · next outcome _ =>
        have hrec : Move c e n (n.recordOutcome c clock outcome).2 := .outcome clock outcome
        split
        · next n₁ h => rw [h] at hrec; exact .single hrec
        · next n₁ h =>
          rw [h] at hrec
          refine .head hrec ?_
          dsimp only
          split
          · exact (moves_settle ..).trans (moves_announce ..)
          · exact moves_announce ..
    · exact .refl

theorem moves_executeSpec {spec : JobSpec} (h : carriedSpec c.x e = some spec) (clock : Clock)
    (n : NodeLoop W) : Moves c e n (n.executeSpec c clock spec) := by
  have hresult : ∀ n : NodeLoop W, Moves c e n
      ((n.recordResult c clock (ownResult c clock spec)).publish
        (.result (ownResult c clock spec))) := fun n =>
    .head (.result clock _ (Or.inr ⟨clock, spec, h, rfl⟩)) (.single (.publishOther _ fun _ => nofun))
  unfold executeSpec
  dsimp only
  split
  · split
    · exact .refl
    · exact .head (.markExecuted _) (hresult _)
  · exact hresult n

theorem moves_castVote (clock : Clock) {result : JobResult} {coin : Bool} {t : TaskState W}
    {verdict : VerifierVerdict} (hres : carriedResult c.x e = some result)
    (hne : result.executor ≠ c.localPeerId) (ht : t ∈ n.tasks.rows)
    (hth : t.specHash = result.specHash) (hverdict : verdictOn c coin t.spec result = .ok verdict) :
    Moves c e n (n.castVote c clock t.spec result verdict) := by
  have hsign : Move c e n (n.signVote c clock t.spec result verdict) :=
    .sign clock coin t result verdict hres hne ht hth hverdict
  have hcast : Cast (n.signVote c clock t.spec result verdict) (ownVote c clock result verdict) :=
    ⟨_, List.mem_append_right _ (List.mem_singleton.mpr rfl), rfl⟩
  have hrec := moves_recordVerification (c := c) (e := e) clock (Or.inr hcast)
  unfold castVote
  dsimp only
  split
  · next n₁ h => rw [h] at hrec; exact .head hsign hrec
  · next n₁ h =>
    rw [h] at hrec
    obtain ⟨b, hb, hbv⟩ := hcast
    exact (Relation.ReflTransGen.head hsign hrec).tail
      (.publishVote _ ⟨b, Moves.ballots_subset hrec hb, hbv⟩)

theorem moves_verifyResult {result : JobResult} (hres : carriedResult c.x e = some result)
    (clock : Clock) (coin : Bool) (n : NodeLoop W) : Moves c e n (n.verifyResult c clock coin result) := by
  unfold verifyResult
  split
  · exact .refl
  · next t ht =>
    obtain ⟨hmem, hhash⟩ := Keyed.find?_eq_some_iff.mp ht
    split
    · exact .refl
    · next hgo =>
      have hne : result.executor ≠ c.localPeerId := fun h => hgo (by simp [h])
      split
      · exact .refl
      · next verdict hverdict => exact moves_castVote clock hres hne hmem hhash hverdict

theorem moves_handleSpec {source : PeerId} {data : Bytes} {coin : Bool}
    (he : e = .gossip source .tasks data coin) (clock : Clock) (n : NodeLoop W) :
    Moves c e n (n.handleSpec c clock data) := by
  unfold handleSpec
  split
  · exact .refl
  · next spec hdec =>
    have hcar : carriedSpec c.x e = some spec := by rw [he]; exact hdec
    split
    · exact .refl
    · split
      · exact .refl
      · dsimp only
        split
        · exact .single (.spec clock spec hcar)
        · split
          · exact .head (.spec clock spec hcar) (moves_executeSpec hcar ..)
          · exact .single (.spec clock spec hcar)

theorem moves_handleResult {source : PeerId} {body : Bytes} {coin : Bool}
    (he : e = .gossip source .verify (tagJobResult :: body) coin) (clock : Clock) (n : NodeLoop W) :
    Moves c e n (n.handleResult c clock coin body) := by
  unfold handleResult
  split
  · exact .refl
  · next result hdec =>
    have hcar : carriedResult c.x e = some result := by
      rw [he, carriedResult, verifyBody, if_pos rfl]
      exact hdec
    split
    · exact .refl
    · split
      · exact .refl
      · exact .head (.result clock result (Or.inl hcar)) (moves_verifyResult hcar ..)

theorem moves_handleVerification {source : PeerId} {body : Bytes} {coin : Bool}
    (he : e = .gossip source .verify (tagJobVerification :: body) coin) (clock : Clock) (n : NodeLoop W) :
    Moves c e n (n.handleVerification c clock body) := by
  unfold handleVerification
  split
  · exact .refl
  · next v hdec =>
    have hcar : carriedVote c.x e = some v := by
      rw [he, carriedVote, verifyBody, if_pos rfl]
      exact hdec
    split
    · exact .refl
    · next key hkey =>
      split
      · exact .refl
      · next hsig =>
        have hrec := moves_recordVerification (c := c) (e := e) (n := n) clock
          (Or.inl ⟨hcar, key, hkey, hsig⟩)
        split
        · next n₁ h => rw [h] at hrec; exact hrec
        · next n₁ h =>
          rw [h] at hrec
          split
          · exact hrec
          · exact hrec.trans (moves_publishOutcomeAndRep ..)

theorem moves_handleDelta (clock : Clock) (data : Bytes) (n : NodeLoop W) :
    Moves c e n (n.handleDelta c clock data) := by
  unfold handleDelta
  split
  · exact .refl
  · next delta _ =>
    split
    · exact .refl
    · next key _ =>
      split
      · exact .refl
      · next hok =>
        split
        · next o hkind =>
          have happly : n.shared.applyDelta c.x delta key (Clock.unixI64 clock) =
              n.shared.recordOutcome c.x o (Clock.unixI64 clock) := by
            simp only [SharedState.applyDelta, hok, hkind]
          rw [happly, ← recordOutcome_frame clock n o]
          exact .single (.outcome clock o)
        · exact .single (.reputation ..)
        · exact .refl

theorem moves_dispatch (clock : Clock) (source : PeerId) (topic : Topic) (data : Bytes) (coin : Bool)
    (n : NodeLoop W) :
    Moves c (.gossip source topic data coin) n (n.dispatch c clock coin topic data) := by
  unfold dispatch
  cases topic with
  | caps =>
    dsimp only
    split
    · exact .refl
    · next ad hdec => exact .single (.advertisement ad hdec)
  | tasks => exact moves_handleSpec rfl clock n
  | verify =>
    dsimp only
    split
    · exact .refl
    · next tag body =>
      split
      · next h => subst h; exact moves_handleResult rfl clock n
      · split
        · next h => subst h; exact moves_handleVerification rfl clock n
        · exact .refl
  | stateDeltas => exact moves_handleDelta clock data n

theorem moves_finaliseOne (clockOf : ContentHash → Clock) (a : NodeLoop W × List ContentHash)
    (specHash : ContentHash) : Moves c e a.1 (finaliseOne c clockOf a specHash).1 := by
  have hfin := moves_tryFinaliseQuorum (c := c) (e := e) (clockOf specHash) a.1 specHash
  unfold finaliseOne
  split
  · exact .refl
  · split
    · next n₁ h => rw [h] at hfin; exact hfin
    · next n₁ h => rw [h] at hfin; exact hfin

theorem moves_finaliseTick (clockOf : ContentHash → Clock) (n : NodeLoop W) :
    Moves c e n (n.finaliseTick c clockOf) := by
  have hfirst : ∀ (pending : List ContentHash) (a : NodeLoop W × List ContentHash),
      Moves c e a.1 (pending.foldl (finaliseOne c clockOf) a).1 := by
    intro pending
    induction pending with
    | nil => exact fun _ => .refl
    | cons h pending ih => exact fun a => (moves_finaliseOne clockOf a h).trans (ih _)
  exact (hfirst _ (n, [])).trans (moves_foldl (fun n h => moves_publishOutcomeAndRep ..) _ _)

theorem moves_publishCaps (published : Bool) (n : NodeLoop W) :
    Moves c e n (n.publishCaps published) := by
  unfold publishCaps
  split
  · exact .single (.readiness _)
  · exact .single (.readiness _)
  · exact .single (.readiness _)
  · exact .refl

/-- Every turn of the event loop is a sequence of moves of its event. -/
theorem step_moves (groupOf : PeerId → UInt8) (n : NodeLoop W) (a : Turn W) :
    Moves c a.event n (n.step c groupOf a) := by
  obtain ⟨clock, event⟩ := a
  cases event with
  | submit spec => exact .head (.spec clock spec rfl) (.single (.publishOther _ fun _ => nofun))
  | gossip source topic data coin =>
    change Moves c _ n (if _ then _ else _)
    split
    · exact moves_dispatch ..
    · exact .refl
  | capsTick published => exact moves_publishCaps published n
  | finaliseTick clockOf => exact moves_finaliseTick clockOf n
  | newListenAddr => exact .single (.readiness _)
  | connectionEstablished =>
    change Moves c _ n (if _ then _ else _)
    split
    · exact .single (.readiness _)
    · exact .refl
  | stateSyncResponse r =>
    change Moves c _ n (if _ then _ else _)
    split
    · exact moves_foldl (fun n o => .single (.synced clock o)) _ _
    · exact .refl

/-! ## Where things come from -/

omit [WeightArith W] in
theorem mem_updateTask {n : NodeLoop W} {hash : ContentHash} {f : TaskState W → TaskState W}
    {hf : ∀ t, (f t).specHash = t.specHash} {t' : TaskState W}
    (h : t' ∈ (n.updateTask hash f hf).tasks.rows) :
    t' ∈ n.tasks.rows ∨ ∃ t ∈ n.tasks.rows, t.specHash = hash ∧ t' = f t := by
  obtain ⟨t, ht, heq⟩ := List.mem_map.mp h
  split at heq
  · next hh => exact Or.inr ⟨t, ht, hh, heq.symm⟩
  · exact Or.inl (heq ▸ ht)

/-- What a task row can be after a move: an old row up to its flags, the row of a
new spec, a row whose quorum just opened or a row with one vote more. -/
inductive RowOrigin (c : Ctx W) (e : Event W) (n : NodeLoop W) (t' : TaskState W) : Prop
  | same (t : TaskState W) (ht : t ∈ n.tasks.rows) (hhash : t'.specHash = t.specHash)
      (hspec : t'.spec = t.spec) (hres : t'.observedResult = t.observedResult)
      (hquorum : t'.quorum = t.quorum) (hopen : t'.finalised = false → t.finalised = false)
  | fresh (spec : JobSpec) (ht' : t' = freshTask c.x spec)
  | opened (t : TaskState W) (result : JobResult) (clock : Clock) (ht : t ∈ n.tasks.rows)
      (hresult : Produced c e result) (hhash : t.specHash = result.specHash)
      (ht' : t' = { t with
        observedResult := some result
        quorum := some (Quorum.new c.quorumConfig result.specHash (result.contentHash c.x)
          clock.wall) })
  | voted (t : TaskState W) (q q' : Quorum W) (v : JobVerification) (key : VerifyingKey)
      (ht : Tracking c.x n t q v.resultHash) (hv : Delivered c e n v ∨ Cast n v)
      (hadd : q.addVerification c.x v harnessReputation key = (.ok (), q'))
      (ht' : t' = { t with quorum := some q' })

omit [WeightArith W] in
theorem RowOrigin.refl {t : TaskState W} (ht : t ∈ n.tasks.rows) : RowOrigin c e n t :=
  .same t ht rfl rfl rfl rfl id

omit [WeightArith W] in
/-- A row update that only sets flags. -/
theorem rowOrigin_of_flags {hash : ContentHash} {f : TaskState W → TaskState W}
    (hf : ∀ t, (f t).specHash = t.specHash) {t' : TaskState W}
    (ht' : t' ∈ (n.updateTask hash f hf).tasks.rows)
    (hflags : ∀ t, (f t).spec = t.spec ∧ (f t).observedResult = t.observedResult ∧
      (f t).quorum = t.quorum ∧ ((f t).finalised = false → t.finalised = false)) :
    RowOrigin c e n t' := by
  rcases mem_updateTask ht' with ht | ⟨t, ht, -, rfl⟩
  · exact .refl ht
  · obtain ⟨hspec, hres, hquorum, hopen⟩ := hflags t
    exact .same t ht (hf t) hspec hres hquorum hopen

theorem Move.row_origin (h : Move c e n n') {t' : TaskState W} (ht' : t' ∈ n'.tasks.rows) :
    RowOrigin c e n t' := by
  cases h with
  | spec clock spec _ =>
    rcases Keyed.mem_insertOrIgnore.mp ht' with ht | ⟨-, rfl⟩
    · exact .refl ht
    · exact .fresh spec rfl
  | result clock result hresult =>
    unfold recordResult at ht'
    split at ht'
    · exact .refl ht'
    · next shared _ =>
      rcases mem_updateTask ht' with ht | ⟨t, ht, hhash, rfl⟩
      · exact .refl ht
      · unfold observe
        split
        · exact .opened t result clock ht hresult hhash rfl
        · exact .refl ht
  | addVote t q q' v key ht hv hadd =>
    rcases mem_updateTask ht' with hold | ⟨u, hu, hhash, rfl⟩
    · exact .refl hold
    · -- the hash is the key of the table, so the updated row is the tracking one
      obtain rfl := n.tasks.eq_of_key_eq hu ht.mem hhash
      exact .voted u q q' v key ht hv hadd rfl
  | close clock t q f =>
    rw [recordOutcome_frame] at ht'
    exact rowOrigin_of_flags (f := fun t => { t with finalised := true }) (fun _ => rfl) ht'
      fun _ => ⟨rfl, rfl, rfl, nofun⟩
  | outcome clock o =>
    rw [recordOutcome_frame] at ht'
    exact .refl ht'
  | reputation clock peer delta reason relatedHash =>
    unfold applyReputation at ht'
    split at ht' <;> exact .refl ht'
  | markExecuted hash =>
    exact rowOrigin_of_flags (f := fun t => { t with selfExecuted := true }) (fun _ => rfl) ht'
      fun _ => ⟨rfl, rfl, rfl, id⟩
  | sign clock coin t result verdict =>
    exact rowOrigin_of_flags (f := fun t => { t with selfVerified := true }) (fun _ => rfl) ht'
      fun _ => ⟨rfl, rfl, rfl, id⟩
  | synced clock o =>
    unfold applySynced at ht'
    split at ht' <;> exact .refl ht'
  | storeVote | publishVote | publishOther | advertisement | readiness => exact .refl ht'

/-- A finalised quorum was the open quorum of a task. -/
theorem Move.closing_origin (h : Move c e n n') {k : Closing W} (hk : k ∈ n'.closed) :
    k ∈ n.closed ∨ ∃ t ∈ n.tasks.rows, ∃ q f, ∃ clock : Clock, t.finalised = false ∧
      t.quorum = some q ∧
      q.tryFinalise c.x clock.wall (unixNow clock.wall) c.localPeerId c.signingKey = some f ∧
      k = ⟨t.spec, t.observedResult, q, f⟩ := by
  cases h with
  | close clock t q f ht hopen hq hf =>
    rw [recordOutcome_frame] at hk
    rcases List.mem_append.mp hk with hk | hk
    · exact Or.inl hk
    · exact Or.inr ⟨t, ht, q, f, clock, hopen, hq, hf, List.mem_singleton.mp hk⟩
  | result =>
    unfold recordResult at hk
    split at hk <;> exact Or.inl hk
  | outcome clock o =>
    rw [recordOutcome_frame] at hk
    exact Or.inl hk
  | reputation clock peer delta reason relatedHash =>
    unfold applyReputation at hk
    split at hk <;> exact Or.inl hk
  | synced clock o =>
    unfold applySynced at hk
    split at hk <;> exact Or.inl hk
  | spec | storeVote | addVote | markExecuted | sign | publishVote | publishOther | advertisement
  | readiness => exact Or.inl hk

/-- A ballot was signed on a result of another executor, against the spec the node
knows under the hash the result names. -/
theorem Move.ballot_origin (h : Move c e n n') {b : Ballot} (hb : b ∈ n'.ballots) :
    b ∈ n.ballots ∨ ∃ clock coin verdict, ∃ t ∈ n.tasks.rows, ∃ result,
      carriedResult c.x e = some result ∧ result.executor ≠ c.localPeerId ∧
      t.specHash = result.specHash ∧ verdictOn c coin t.spec result = .ok verdict ∧
      b = ⟨ownVote c clock result verdict, t.spec, result⟩ := by
  cases h with
  | sign clock coin t result verdict hres hne ht hspec hverdict =>
    rcases List.mem_append.mp hb with hb | hb
    · exact Or.inl hb
    · exact Or.inr ⟨clock, coin, verdict, t, ht, result, hres, hne, hspec, hverdict,
        List.mem_singleton.mp hb⟩
  | result =>
    unfold recordResult at hb
    split at hb <;> exact Or.inl hb
  | close clock t q f =>
    rw [recordOutcome_frame] at hb
    exact Or.inl hb
  | outcome clock o =>
    rw [recordOutcome_frame] at hb
    exact Or.inl hb
  | reputation clock peer delta reason relatedHash =>
    unfold applyReputation at hb
    split at hb <;> exact Or.inl hb
  | synced clock o =>
    unfold applySynced at hb
    split at hb <;> exact Or.inl hb
  | spec | storeVote | addVote | markExecuted | publishVote | publishOther | advertisement
  | readiness => exact Or.inl hb

/-- The registry changes with an advertisement only. -/
theorem Move.registry_cases (h : Move c e n n') :
    n'.registry = n.registry ∨ ∃ ad, carriedAd c.x e = some ad ∧
      n'.registry = (n.registry.upsert c.x ad).2 := by
  cases h with
  | advertisement ad had => exact Or.inr ⟨ad, had, rfl⟩
  | result =>
    unfold recordResult
    split <;> exact Or.inl rfl
  | close clock t q f =>
    rw [recordOutcome_frame]
    exact Or.inl rfl
  | outcome clock o =>
    rw [recordOutcome_frame]
    exact Or.inl rfl
  | reputation =>
    unfold applyReputation
    split <;> exact Or.inl rfl
  | synced =>
    unfold applySynced
    split <;> exact Or.inl rfl
  | spec | storeVote | addVote | markExecuted | sign | publishVote | publishOther | readiness =>
    exact Or.inl rfl

end

end NodeLoop

end Parseh.Chaos
