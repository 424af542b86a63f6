import Parseh.Miner.Finalise
import Parseh.Miner.StateSync

/-!
# What a node writes to its store

The event loop never touches a table: `step_writes` shows every step to be a run of
the store's own writer calls, each with its reason (`Vouched`): a signature under a
registered key, the node's own execution, or a quorum of its own that closed.
So whatever holds of every run of writer calls holds of every node.

`store_authentic` follows the rows back over a whole run: nothing is in the store
that was not there at the start, signed by a peer whose key was registered when it
arrived, or made by the node itself.
-/

namespace Parseh.Miner

open Parseh.Lib Parseh.Wire Parseh.Core Parseh.Shared Parseh.Verify

variable {W : Type} [WeightArith W]

/-! ## The writes of a step -/

/-- Why the node `n` makes a write in the step `s`. -/
inductive Vouched (c : Ctx W) (n : Node W) (s : Step W) : Write W → Prop
  | spec {spec : JobSpec} {key : VerifyingKey}
      (hkey : n.peerRegistry.verifyingKey spec.submitter = some key)
      (hsig : spec.verifySignature c.x key = .ok ()) : Vouched c n s (.recordSpec spec)
  | executed {spec : JobSpec} {key : VerifyingKey}
      (hkey : n.peerRegistry.verifyingKey spec.submitter = some key)
      (hsig : spec.verifySignature c.x key = .ok ()) (helected : elected c n spec = true) :
      Vouched c n s (.recordResult (ownResult c s.clock spec).1)
  | result {result : JobResult} {key : VerifyingKey}
      (hkey : n.peerRegistry.verifyingKey result.executor = some key)
      (hsig : result.verifySignature c.x key = .ok ()) : Vouched c n s (.recordResult result)
  | verification {v : JobVerification} {key : VerifyingKey}
      (hkey : n.peerRegistry.verifyingKey v.verifier = some key)
      (hsig : v.verifySignature c.x key = .ok ()) : Vouched c n s (.recordVerification v)
  | finalised {rh : ContentHash} {q : Quorum W} {f : FinalisedQuorum W}
      (htick : s.action = .finaliseTick) (hmem : (rh, q, f) ∈ finalisedResults c s.clock n) :
      Vouched c n s (.recordOutcome f.outcome)
  | reward {rh : ContentHash} {q : Quorum W} {f : FinalisedQuorum W}
      (htick : s.action = .finaliseTick) (hmem : (rh, q, f) ∈ finalisedResults c s.clock n)
      (p : PeerId) : Vouched c n s (.applyReputationDelta p 5 "verifier_agreed"
        (some (f.outcome.contentHash c.x)))
  | synced {o : JobOutcome W} (hacc : syncAccepted c n.peerRegistry o = true) :
      Vouched c n s (.recordSyncedOutcome o)

/-- The store `shared'` is what vouched writer calls of the step make of `shared`. -/
def WritesTo (c : Ctx W) (n : Node W) (s : Step W) (shared shared' : SharedState) : Prop :=
  ∃ calls : List (Call W), shared' = run (SharedState.write c.x) shared calls ∧
    ∀ call ∈ calls, call.now = Clock.unixI64 s.clock ∧ Vouched c n s call.write

section Step

variable {c : Ctx W} {n : Node W} {s : Step W} {shared shared₁ shared₂ : SharedState}

theorem WritesTo.none : WritesTo c n s shared shared := ⟨[], rfl, by simp⟩

theorem WritesTo.one {w : Write W} (hw : Vouched c n s w)
    (h : shared₁ = shared.write c.x ⟨Clock.unixI64 s.clock, w⟩) :
    WritesTo c n s shared shared₁ := by
  refine ⟨[⟨Clock.unixI64 s.clock, w⟩], h, fun call hcall => ?_⟩
  rw [List.mem_singleton.mp hcall]
  exact ⟨rfl, hw⟩

theorem WritesTo.trans (h : WritesTo c n s shared shared₁)
    (h' : WritesTo c n s shared₁ shared₂) : WritesTo c n s shared shared₂ := by
  obtain ⟨calls, rfl, hcalls⟩ := h
  obtain ⟨calls', rfl, hcalls'⟩ := h'
  refine ⟨calls ++ calls', (run_append ..).symm, fun call hcall => ?_⟩
  rcases List.mem_append.mp hcall with hcall | hcall
  · exact hcalls call hcall
  · exact hcalls' call hcall

theorem writesTo_tasks (m : Message) :
    WritesTo c n s n.shared (handleTasksMessage c s.clock n m).shared := by
  unfold handleTasksMessage admitSpec
  cases c.x.specCbor.decode m.data with
  | none => exact .none
  | some spec =>
    dsimp only
    cases hkey : n.peerRegistry.verifyingKey spec.submitter with
    | none => exact .none
    | some key =>
      dsimp only
      cases hsig : spec.verifySignature c.x key with
      | error e => exact .none
      | ok u =>
        dsimp only
        have hspec : WritesTo c n s n.shared
            (n.shared.recordSpec c.x spec (Clock.unixI64 s.clock)) := .one (.spec hkey hsig) rfl
        split
        · next helected => exact hspec.trans (.one (.executed hkey hsig helected) rfl)
        · exact hspec

theorem writesTo_jobResult (body : Bytes) :
    WritesTo c n s n.shared (handleInboundJobResult c s.clock n body).shared := by
  unfold handleInboundJobResult admitJobResult
  cases c.x.resultCbor.decode body with
  | none => exact .none
  | some result =>
    dsimp only
    cases hkey : n.peerRegistry.verifyingKey result.executor with
    | none => exact .none
    | some key =>
      dsimp only
      cases hsig : result.verifySignature c.x key with
      | error e => exact .none
      | ok u =>
        dsimp only
        cases ((n.rateLimit result.executor).record (unixNow s.clock.wall)).1 with
        | true => exact .none
        | false =>
          cases hrec : n.shared.recordResult c.x result (Clock.unixI64 s.clock) with
          | error e => exact .none
          | ok shared =>
            refine .one (.result hkey hsig) ?_
            exact (SharedState.write_of_ok (c := ⟨_, .recordResult result⟩) hrec).symm

theorem writesTo_verification (body : Bytes) :
    WritesTo c n s n.shared (handleInboundVerification c s.clock n body).shared := by
  unfold handleInboundVerification admitVerification
  cases c.x.verificationCbor.decode body with
  | none => exact .none
  | some v =>
    dsimp only
    cases hkey : n.peerRegistry.verifyingKey v.verifier with
    | none => exact .none
    | some key =>
      dsimp only
      cases hsig : v.verifySignature c.x key with
      | error e => exact .none
      | ok u =>
        dsimp only
        cases hrec : n.shared.recordVerification c.x v (Clock.unixI64 s.clock) with
        | error e => exact .none
        | ok shared =>
          refine .one (.verification hkey hsig) ?_
          exact (SharedState.write_of_ok (c := ⟨_, .recordVerification v⟩) hrec).symm

theorem writesTo_verify (m : Message) :
    WritesTo c n s n.shared (handleVerifyMessage c s.clock n m).shared := by
  unfold handleVerifyMessage
  cases m.data with
  | nil => exact .none
  | cons tag body =>
    dsimp only
    split
    · exact writesTo_jobResult body
    · split
      · exact writesTo_verification body
      · exact .none

/-- Rewarding is one vouched call for every verifier. -/
theorem writesTo_rewards {rh : ContentHash} {q : Quorum W} {f : FinalisedQuorum W}
    (htick : s.action = .finaliseTick) (hmem : (rh, q, f) ∈ finalisedResults c s.clock n)
    (ps : List PeerId) (m : Node W) :
    WritesTo c n s m.shared
      (ps.foldl (rewardVerifier c s.clock (f.outcome.contentHash c.x)) m).shared := by
  induction ps generalizing m with
  | nil => exact .none
  | cons p ps ih =>
    rw [List.foldl_cons]
    exact (WritesTo.one (.reward htick hmem p) rfl).trans (ih _)

/-- The loop of the tick writes for the results it was given. -/
theorem writesTo_finalise (htick : s.action = .finaliseTick)
    (rs : List (ContentHash × Quorum W × FinalisedQuorum W))
    (hrs : ∀ r ∈ rs, r ∈ finalisedResults c s.clock n) (m : Node W) :
    WritesTo c n s m.shared (rs.foldl (finaliseOne c s.clock) m).shared := by
  induction rs generalizing m with
  | nil => exact .none
  | cons r rs ih =>
    have hr := hrs r List.mem_cons_self
    rw [List.foldl_cons]
    have hpublish : WritesTo c n s m.shared
        (publishOutcome c s.clock m r.2.2.outcome).shared := .one (.finalised htick hr) rfl
    have hreward := writesTo_rewards htick hr
      (rewardedVerifiers c.x (publishOutcome c s.clock m r.2.2.outcome).shared r.1 r.2.2.outcome)
      (publishOutcome c s.clock m r.2.2.outcome)
    have hrest := ih (fun r' h => hrs r' (List.mem_cons_of_mem _ h)) (finaliseOne c s.clock m r)
    exact (hpublish.trans hreward).trans hrest

theorem writesTo_response (r : StateSyncResponse W) :
    WritesTo c n s n.shared (applyStateSyncResponse c s.clock n r).shared := by
  rw [applyStateSyncResponse_shared]
  split
  · refine ⟨_, rfl, fun call hcall => ?_⟩
    obtain ⟨o, ho, rfl⟩ := List.mem_map.mp hcall
    exact ⟨rfl, .synced (List.mem_filter.mp ho).2⟩
  · exact .none

end Step

/-- **The store behind the loop.**  Every step is a run of vouched writer calls. -/
theorem step_writes (c : Ctx W) (n : Node W) (s : Step W) :
    WritesTo c n s n.shared (step c n s).shared := by
  unfold step
  split
  · exact .none
  · exact writesTo_tasks _
  · exact writesTo_verify _
  · exact .none
  · next htick => exact writesTo_finalise htick (finalisedResults c s.clock n) (fun r h => h) _
  · exact .none
  · exact .none
  · exact writesTo_response _

/-! ## The writes of a run -/

/-- Some step of the run vouches for the call. -/
def VouchedIn (c : Ctx W) (n : Node W) (as : List (Step W)) (call : Call W) : Prop :=
  ∃ pre s, pre ++ [s] <+: as ∧ call.now = Clock.unixI64 s.clock ∧
    Vouched c (run (step c) n pre) s call.write

theorem run_writes (c : Ctx W) (n : Node W) (as : List (Step W)) :
    ∃ calls : List (Call W),
      (run (step c) n as).shared = run (SharedState.write c.x) n.shared calls ∧
      ∀ call ∈ calls, VouchedIn c n as call := by
  induction as generalizing n with
  | nil => exact ⟨[], rfl, by simp⟩
  | cons s as ih =>
    obtain ⟨first, hfirst, hvouched⟩ := step_writes c n s
    obtain ⟨rest, hrest, hlater⟩ := ih (step c n s)
    refine ⟨first ++ rest, ?_, fun call hcall => ?_⟩
    · rw [run_cons, hrest, hfirst, run_append]
    · rcases List.mem_append.mp hcall with hcall | hcall
      · exact ⟨[], s, by simp, hvouched call hcall⟩
      · obtain ⟨pre, s', hpre, hcall⟩ := hlater call hcall
        exact ⟨s :: pre, s', List.cons_prefix_cons.mpr ⟨rfl, hpre⟩, hcall⟩

/-! ## Where the rows come from -/

/-- The key was registered for the peer before some step of the run. -/
def KeyIn (c : Ctx W) (n : Node W) (as : List (Step W)) (p : PeerId) (key : VerifyingKey) : Prop :=
  ∃ pre, pre <+: as ∧ (run (step c) n pre).peerRegistry.verifyingKey p = some key

/-- The outcome was signed by its observer, whose key was registered. -/
def SyncedIn (c : Ctx W) (n : Node W) (as : List (Step W)) (o : JobOutcome W) : Prop :=
  ∃ key, KeyIn c n as o.observedBy key ∧ o.verifySignature c.x key = .ok ()

/-- Every row of the store was in that of `n`, carries a signature that held under a
key registered during the run, or was made by the node in the run. -/
structure StoreAuthentic (c : Ctx W) (n : Node W) (as : List (Step W)) (shared : SharedState) :
    Prop where
  tasks : ∀ row ∈ shared.tasks.rows, row ∈ n.shared.tasks.rows ∨
    (∃ spec now key, row = SharedState.taskRow c.x spec now ∧ KeyIn c n as spec.submitter key ∧
      spec.verifySignature c.x key = .ok ()) ∨
    ∃ o, row = SharedState.stubTask o ∧ SyncedIn c n as o
  results : ∀ row ∈ shared.results.rows, row ∈ n.shared.results.rows ∨
    (∃ result now key, row = SharedState.resultRow c.x result now ∧
      KeyIn c n as result.executor key ∧ result.verifySignature c.x key = .ok ()) ∨
    (∃ spec clock now key, row = SharedState.resultRow c.x (ownResult c clock spec).1 now ∧
      KeyIn c n as spec.submitter key ∧ spec.verifySignature c.x key = .ok ()) ∨
    ∃ o, row = SharedState.stubResult o ∧ SyncedIn c n as o
  verifications : ∀ row ∈ shared.verifications.rows, row ∈ n.shared.verifications.rows ∨
    ∃ v now key, row = SharedState.verificationRow c.x v now ∧ KeyIn c n as v.verifier key ∧
      v.verifySignature c.x key = .ok ()
  outcomes : ∀ row ∈ shared.outcomes.rows, row ∈ n.shared.outcomes.rows ∨
    (∃ now, ∃ cl ∈ (run (step c) n as).closed,
      row = SharedState.outcomeRow c.x cl.finalised.outcome now) ∨
    ∃ o now, row = SharedState.outcomeRow c.x o now ∧ SyncedIn c n as o
  reputation : ∀ e ∈ shared.reputationLog, e ∈ n.shared.reputationLog ∨
    (e.delta = 5 ∧ e.reason = "verifier_agreed" ∧
      ∃ cl ∈ (run (step c) n as).closed, e.relatedHash = some (cl.finalised.outcome.contentHash c.x))
  governance : shared.governanceRules = n.shared.governanceRules

section Origin

variable {c : Ctx W} {n : Node W} {as : List (Step W)}

theorem SyncedIn.of_accepted {pre : List (Step W)} {s : Step W} (hpre : pre ++ [s] <+: as)
    {o : JobOutcome W} (h : syncAccepted c (run (step c) n pre).peerRegistry o = true) :
    SyncedIn c n as o := by
  unfold syncAccepted at h
  split at h
  · next key hkey =>
    refine ⟨key, ⟨pre, (List.prefix_append pre [s]).trans hpre, hkey⟩, ?_⟩
    cases hsig : o.verifySignature c.x key with
    | ok u => rfl
    | error e =>
      rw [hsig] at h
      cases h
  · cases h

/-- The history only grows. -/
theorem closed_subset_run (c : Ctx W) (n : Node W) (as : List (Step W)) :
    ∀ cl ∈ n.closed, cl ∈ (run (step c) n as).closed := by
  refine run_invariant (I := fun m : Node W => ∀ cl ∈ n.closed, cl ∈ m.closed)
    (fun m s h cl hcl => ?_) (fun cl hcl => hcl) as
  rcases history_step c m s with ⟨hc, -, -⟩ | ⟨-, htick⟩
  · rw [hc]
    exact h cl hcl
  · rw [htick, (runFinaliseTick_blocks c s.clock m).2.2.1]
    exact List.mem_append_left _ (h cl hcl)

/-- What a tick of the run finalises is in the history at the end. -/
theorem exists_closing {pre : List (Step W)} {s : Step W} (hpre : pre ++ [s] <+: as)
    (htick : s.action = .finaliseTick) {rh : ContentHash} {q : Quorum W} {f : FinalisedQuorum W}
    (hmem : (rh, q, f) ∈ finalisedResults c s.clock (run (step c) n pre)) :
    ∃ cl ∈ (run (step c) n as).closed, cl.finalised = f := by
  let m := run (step c) n pre
  refine ⟨closingOf c s.clock m.shared (rh, q, f), ?_, rfl⟩
  have hnew : closingOf c s.clock m.shared (rh, q, f) ∈ closedBy c m s := by
    rw [closedBy_tick c m htick]
    exact List.mem_map_of_mem hmem
  obtain ⟨rest, rfl⟩ := hpre
  rw [run_append, run_append]
  exact closed_subset_run c _ rest _ (List.mem_of_mem_drop hnew)

variable {call : Call W} {shared : SharedState}

theorem task_of_vouched (hcall : VouchedIn c n as call) {row : TaskRow}
    (hrow : row ∈ call.offeredTasks c.x) :
    (∃ spec now key, row = SharedState.taskRow c.x spec now ∧ KeyIn c n as spec.submitter key ∧
      spec.verifySignature c.x key = .ok ()) ∨
    ∃ o, row = SharedState.stubTask o ∧ SyncedIn c n as o := by
  obtain ⟨now, w⟩ := call
  obtain ⟨pre, s, hpre, -, hw⟩ := hcall
  have hpre' := (List.prefix_append pre [s]).trans hpre
  cases hw with
  | spec hkey hsig =>
    exact Or.inl ⟨_, now, _, List.mem_singleton.mp hrow, ⟨pre, hpre', hkey⟩, hsig⟩
  | synced hacc => exact Or.inr ⟨_, List.mem_singleton.mp hrow, .of_accepted hpre hacc⟩
  | executed => cases hrow
  | result => cases hrow
  | verification => cases hrow
  | finalised => cases hrow
  | reward => cases hrow

theorem result_of_vouched (hcall : VouchedIn c n as call) {row : ResultRow}
    (hrow : row ∈ call.acceptedResults c.x shared) :
    (∃ result now key, row = SharedState.resultRow c.x result now ∧
      KeyIn c n as result.executor key ∧ result.verifySignature c.x key = .ok ()) ∨
    (∃ spec clock now key, row = SharedState.resultRow c.x (ownResult c clock spec).1 now ∧
      KeyIn c n as spec.submitter key ∧ spec.verifySignature c.x key = .ok ()) ∨
    ∃ o, row = SharedState.stubResult o ∧ SyncedIn c n as o := by
  obtain ⟨now, w⟩ := call
  obtain ⟨pre, s, hpre, -, hw⟩ := hcall
  have hpre' := (List.prefix_append pre [s]).trans hpre
  have hone : ∀ {r : JobResult}, w = .recordResult r →
      row ∈ Call.acceptedResults c.x shared ⟨now, .recordResult r⟩ →
      row = SharedState.resultRow c.x r now := by
    intro r _ hr
    simp only [Call.acceptedResults] at hr
    split at hr
    · exact List.mem_singleton.mp hr
    · cases hr
  cases hw with
  | executed hkey hsig _ =>
    exact Or.inr (Or.inl ⟨_, s.clock, now, _, hone rfl hrow, ⟨pre, hpre', hkey⟩, hsig⟩)
  | result hkey hsig => exact Or.inl ⟨_, now, _, hone rfl hrow, ⟨pre, hpre', hkey⟩, hsig⟩
  | synced hacc =>
    exact Or.inr (Or.inr ⟨_, List.mem_singleton.mp hrow, .of_accepted hpre hacc⟩)
  | spec => cases hrow
  | verification => cases hrow
  | finalised => cases hrow
  | reward => cases hrow

theorem verification_of_vouched (hcall : VouchedIn c n as call) {row : VerificationRow}
    (hrow : row ∈ call.acceptedVerifications c.x shared) :
    ∃ v now key, row = SharedState.verificationRow c.x v now ∧ KeyIn c n as v.verifier key ∧
      v.verifySignature c.x key = .ok () := by
  obtain ⟨now, w⟩ := call
  obtain ⟨pre, s, hpre, -, hw⟩ := hcall
  have hpre' := (List.prefix_append pre [s]).trans hpre
  cases hw with
  | verification hkey hsig =>
    simp only [Call.acceptedVerifications] at hrow
    split at hrow
    · exact ⟨_, now, _, List.mem_singleton.mp hrow, ⟨pre, hpre', hkey⟩, hsig⟩
    · cases hrow
  | spec => cases hrow
  | executed => cases hrow
  | result => cases hrow
  | finalised => cases hrow
  | reward => cases hrow
  | synced => cases hrow

theorem outcome_of_vouched (hcall : VouchedIn c n as call) {row : OutcomeRow}
    (hrow : row ∈ call.acceptedOutcomes c.x shared) :
    (∃ now, ∃ cl ∈ (run (step c) n as).closed,
      row = SharedState.outcomeRow c.x cl.finalised.outcome now) ∨
    ∃ o now, row = SharedState.outcomeRow c.x o now ∧ SyncedIn c n as o := by
  obtain ⟨now, w⟩ := call
  obtain ⟨pre, s, hpre, -, hw⟩ := hcall
  cases hw with
  | finalised htick hmem =>
    obtain ⟨cl, hcl, rfl⟩ := exists_closing hpre htick hmem
    simp only [Call.acceptedOutcomes, Call.offeredOutcome] at hrow
    split at hrow
    · exact Or.inl ⟨now, cl, hcl, List.mem_singleton.mp hrow⟩
    · cases hrow
  | synced hacc => exact Or.inr ⟨_, now, List.mem_singleton.mp hrow, .of_accepted hpre hacc⟩
  | spec => cases hrow
  | executed => cases hrow
  | result => cases hrow
  | verification => cases hrow
  | reward => cases hrow

theorem orKeep_frame {r : Except StoreError SharedState} {P : ReputationEntry → Prop}
    (h : ∀ s', r = .ok s' → s'.governanceRules = shared.governanceRules ∧
      s'.reputationLog = shared.reputationLog) :
    (shared.orKeep r).governanceRules = shared.governanceRules ∧
      ∀ e ∈ (shared.orKeep r).reputationLog, e ∈ shared.reputationLog ∨ P e := by
  cases r with
  | error e => exact ⟨rfl, fun e' he => Or.inl he⟩
  | ok s' =>
    obtain ⟨hgov, hlog⟩ := h s' rfl
    exact ⟨hgov, fun e' he => Or.inl (hlog ▸ he)⟩

/-- A vouched call appends at most a reward, and leaves the rules alone. -/
theorem log_of_vouched (shared : SharedState) (hcall : VouchedIn c n as call) :
    (shared.write c.x call).governanceRules = shared.governanceRules ∧
    ∀ e ∈ (shared.write c.x call).reputationLog, e ∈ shared.reputationLog ∨
      (e.delta = 5 ∧ e.reason = "verifier_agreed" ∧
        ∃ cl ∈ (run (step c) n as).closed,
          e.relatedHash = some (cl.finalised.outcome.contentHash c.x)) := by
  obtain ⟨now, w⟩ := call
  obtain ⟨pre, s, hpre, -, hw⟩ := hcall
  cases hw with
  | spec => exact ⟨rfl, fun e h => Or.inl h⟩
  | synced => exact ⟨rfl, fun e h => Or.inl h⟩
  | executed =>
    refine orKeep_frame fun s' hs' => ?_
    rcases SharedState.ok_of_checked hs' with ⟨-, rfl⟩ | ⟨-, rfl⟩ <;> exact ⟨rfl, rfl⟩
  | result =>
    refine orKeep_frame fun s' hs' => ?_
    rcases SharedState.ok_of_checked hs' with ⟨-, rfl⟩ | ⟨-, rfl⟩ <;> exact ⟨rfl, rfl⟩
  | verification =>
    refine orKeep_frame fun s' hs' => ?_
    rcases SharedState.ok_of_checked hs' with ⟨-, rfl⟩ | ⟨-, rfl⟩ <;> exact ⟨rfl, rfl⟩
  | finalised =>
    refine orKeep_frame fun s' hs' => ?_
    rcases SharedState.ok_of_checked hs' with ⟨-, rfl⟩ | ⟨-, rfl⟩ <;> exact ⟨rfl, rfl⟩
  | reward htick hmem p =>
    obtain ⟨cl, hcl, rfl⟩ := exists_closing hpre htick hmem
    refine ⟨rfl, fun e he => ?_⟩
    rcases List.mem_append.mp he with he | he
    · exact Or.inl he
    · rw [List.mem_singleton.mp he]
      exact Or.inr ⟨rfl, rfl, cl, hcl, rfl⟩

theorem StoreAuthentic.write (h : StoreAuthentic c n as shared) (hcall : VouchedIn c n as call) :
    StoreAuthentic c n as (shared.write c.x call) := by
  obtain ⟨ht, hr, hv, ho⟩ := SharedState.write_grown c.x shared call
  obtain ⟨hgov, hlog⟩ := log_of_vouched shared hcall
  refine ⟨fun row hrow => ?_, fun row hrow => ?_, fun row hrow => ?_, fun row hrow => ?_,
    fun e he => ?_, hgov.trans h.governance⟩
  · rw [ht] at hrow
    rcases Keyed.mem_of_mem_insertAll hrow with hrow | hrow
    · exact h.tasks row hrow
    · exact Or.inr (task_of_vouched hcall hrow)
  · rw [hr] at hrow
    rcases Keyed.mem_of_mem_insertAll hrow with hrow | hrow
    · exact h.results row hrow
    · exact Or.inr (result_of_vouched hcall hrow)
  · rw [hv] at hrow
    rcases Keyed.mem_of_mem_insertAll hrow with hrow | hrow
    · exact h.verifications row hrow
    · exact Or.inr (verification_of_vouched hcall hrow)
  · rw [ho] at hrow
    rcases Keyed.mem_of_mem_insertAll hrow with hrow | hrow
    · exact h.outcomes row hrow
    · exact Or.inr (outcome_of_vouched hcall hrow)
  · rcases hlog e he with he | he
    · exact h.reputation e he
    · exact Or.inr he

end Origin

/-- **What is in the store.**  After any run of a node, every task, result, vote and
outcome of its store was there at the start, was signed by a peer whose key was
registered, or was made by the node itself; the reputation grew by rewards of five
for its own outcomes only, and no governance rule changed. -/
theorem store_authentic (c : Ctx W) (n : Node W) (as : List (Step W)) :
    StoreAuthentic c n as (run (step c) n as).shared := by
  obtain ⟨calls, hcalls, hvouched⟩ := run_writes c n as
  rw [hcalls]
  have hstart : StoreAuthentic c n as n.shared :=
    ⟨fun _ h => Or.inl h, fun _ h => Or.inl h, fun _ h => Or.inl h, fun _ h => Or.inl h,
      fun _ h => Or.inl h, rfl⟩
  refine Guarded.invariant (G := fun _ call => VouchedIn c n as call)
    (fun shared call hcall h => h.write hcall) ?_ hstart
  exact (guarded_const _ _).mpr hvouched

end Parseh.Miner
