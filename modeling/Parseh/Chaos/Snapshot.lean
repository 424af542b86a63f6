import Parseh.Chaos.Moves

/-!
# The outcomes a snapshot shows

`snapshot` drops an outcome it cannot read without a word.  `snapshot_complete`
shows that it never has to: what a node finalised or caught up on is in its store
under the spec it is about, and stays there.  The argument is that the store always
holds the parents of an outcome before the outcome comes (`Filed`).
-/

namespace Parseh.Chaos

open Parseh.Lib Parseh.Wire Parseh.Core Parseh.Shared Parseh.Verify Parseh.Miner

variable {W : Type}

namespace NodeLoop

/-- A spec whose outcome the snapshot looks up. -/
def Shown (n : NodeLoop W) (h : ContentHash) : Prop :=
  (∃ t ∈ n.tasks.rows, t.specHash = h ∧ t.finalised = true) ∨ h ∈ n.syncedOutcomes

/-- The store took an outcome of the spec. -/
def Kept (x : Externals W) (n : NodeLoop W) (h : ContentHash) : Prop :=
  ∃ o ∈ n.offered, o.specHash = h ∧ n.shared.outcomes.contains (o.contentHash x) = true

/-- What the store owes the tasks: the parents of every outcome that may come, and
the outcome of everything shown. -/
structure Filed (x : Externals W) (n : NodeLoop W) : Prop where
  spec : ∀ t ∈ n.tasks.rows, n.shared.tasks.contains t.specHash = true
  quorum : ∀ t ∈ n.tasks.rows, ∀ q, t.quorum = some q →
    q.specHash = t.specHash ∧ n.shared.results.contains q.resultHash = true
  rows : ∀ r ∈ n.shared.outcomes.rows, ∃ o ∈ n.offered, ∃ now, r = SharedState.outcomeRow x o now
  shown : ∀ h, n.Shown h → n.Kept x h

/-- What is in one store and history is in the other. -/
structure Grows (n n' : NodeLoop W) : Prop where
  tasks : ∀ k, n.shared.tasks.contains k = true → n'.shared.tasks.contains k = true
  results : ∀ k, n.shared.results.contains k = true → n'.shared.results.contains k = true
  outcomes : ∀ k, n.shared.outcomes.contains k = true → n'.shared.outcomes.contains k = true
  offered : n.offered ⊆ n'.offered
  shown : ∀ h, n.Shown h → n'.Shown h

theorem Grows.refl (n : NodeLoop W) : Grows n n :=
  ⟨fun _ => id, fun _ => id, fun _ => id, fun _ => id, fun _ => id⟩

theorem Grows.trans {n₁ n₂ n₃ : NodeLoop W} (h : Grows n₁ n₂) (h' : Grows n₂ n₃) :
    Grows n₁ n₃ :=
  ⟨fun k hk => h'.tasks k (h.tasks k hk), fun k hk => h'.results k (h.results k hk),
    fun k hk => h'.outcomes k (h.outcomes k hk), fun _ ho => h'.offered (h.offered ho),
    fun k hk => h'.shown k (h.shown k hk)⟩

theorem Kept.mono {x : Externals W} {n n' : NodeLoop W} {h : ContentHash} (hk : n.Kept x h)
    (hg : Grows n n') : n'.Kept x h := by
  obtain ⟨o, ho, hspec, hc⟩ := hk
  exact ⟨o, hg.offered ho, hspec, hg.outcomes _ hc⟩

/-! ## Updating a task -/

theorem Grows.updateTask (n : NodeLoop W) (hash : ContentHash) (f : TaskState W → TaskState W)
    (hf : ∀ t, (f t).specHash = t.specHash)
    (hfin : ∀ t, t.finalised = true → (f t).finalised = true) :
    Grows n (n.updateTask hash f hf) := by
  refine ⟨fun _ => id, fun _ => id, fun _ => id, fun _ => id, ?_⟩
  rintro h (⟨t, ht, hh, hfinal⟩ | hsync)
  · refine Or.inl ⟨_, List.mem_map_of_mem ht, ?_, ?_⟩
    · split
      · exact (hf t).trans hh
      · exact hh
    · split
      · exact hfin t hfinal
      · exact hfinal
  · exact Or.inr hsync

/-- A row update that opens only quorums on stored results and finalises only what
the store took. -/
theorem Filed.updateTask {x : Externals W} {n : NodeLoop W} (h : Filed x n) (hash : ContentHash)
    (f : TaskState W → TaskState W) (hf : ∀ t, (f t).specHash = t.specHash)
    (hquorum : ∀ t ∈ n.tasks.rows, t.specHash = hash → ∀ q, (f t).quorum = some q →
      q.specHash = t.specHash ∧ n.shared.results.contains q.resultHash = true)
    (hfinal : ∀ t ∈ n.tasks.rows, t.specHash = hash → (f t).finalised = true →
      t.finalised = true ∨ n.Kept x t.specHash) : Filed x (n.updateTask hash f hf) := by
  refine ⟨fun t' ht' => ?_, fun t' ht' q hq => ?_, h.rows, ?_⟩
  · rcases mem_updateTask ht' with ht | ⟨t, ht, -, rfl⟩
    · exact h.spec t' ht
    · exact (hf t).symm ▸ h.spec t ht
  · rcases mem_updateTask ht' with ht | ⟨t, ht, hh, rfl⟩
    · exact h.quorum t' ht q hq
    · rw [hf t]
      exact hquorum t ht hh q hq
  · rintro k (⟨t', ht', rfl, hfin⟩ | hsync)
    · rcases mem_updateTask ht' with ht | ⟨t, ht, hh, rfl⟩
      · exact h.shown _ (Or.inl ⟨t', ht, rfl, hfin⟩)
      · rw [hf t]
        rcases hfinal t ht hh hfin with hold | hkept
        · exact h.shown _ (Or.inl ⟨t, ht, rfl, hold⟩)
        · exact hkept
    · exact h.shown k (Or.inr hsync)

/-- A write to the store alone. -/
theorem Filed.write {x : Externals W} {n n' : NodeLoop W} (h : Filed x n) (hg : Grows n n')
    (htasks : n'.tasks = n.tasks)
    (hrows : ∀ r ∈ n'.shared.outcomes.rows, r ∈ n.shared.outcomes.rows ∨
      ∃ o ∈ n'.offered, ∃ now, r = SharedState.outcomeRow x o now)
    (hsync : ∀ k ∈ n'.syncedOutcomes, k ∈ n.syncedOutcomes ∨ n'.Kept x k) : Filed x n' := by
  refine ⟨fun t ht => ?_, fun t ht q hq => ?_, fun r hr => ?_, ?_⟩
  · exact hg.tasks _ (h.spec t (htasks ▸ ht))
  · obtain ⟨hspec, hres⟩ := h.quorum t (htasks ▸ ht) q hq
    exact ⟨hspec, hg.results _ hres⟩
  · rcases hrows r hr with hold | hnew
    · obtain ⟨o, ho, now, hr⟩ := h.rows r hold
      exact ⟨o, hg.offered ho, now, hr⟩
    · exact hnew
  · rintro k (⟨t, ht, hh, hfin⟩ | hk)
    · exact (h.shown k (Or.inl ⟨t, htasks ▸ ht, hh, hfin⟩)).mono hg
    · rcases hsync k hk with hold | hnew
      · exact (h.shown k (Or.inr hold)).mono hg
      · exact hnew

/-! ## Writing an outcome -/

section Outcomes

variable {x : Externals W} {s : SharedState} {o : JobOutcome W} {now : Int64}

theorem contains_insertOrIgnore_of {R K : Type} [DecidableEq K] {key : R → K} {t : Keyed key} {r : R}
    (k : K) (h : t.contains k = true) : (t.insertOrIgnore r).contains k = true :=
  Keyed.contains_insertOrIgnore.mpr (Or.inl h)

/-- A kept or failed write of an outcome. -/
theorem orKeep_recordOutcome (x : Externals W) (s : SharedState) (o : JobOutcome W) (now : Int64) :
    (s.orKeep (s.recordOutcome x o now)).tasks = s.tasks ∧
    (s.orKeep (s.recordOutcome x o now)).results = s.results ∧
    ((s.orKeep (s.recordOutcome x o now)).outcomes = s.outcomes ∨
      (s.orKeep (s.recordOutcome x o now)).outcomes =
        s.outcomes.insertOrIgnore (SharedState.outcomeRow x o now)) := by
  cases h : s.recordOutcome x o now with
  | error _ => exact ⟨rfl, rfl, Or.inl rfl⟩
  | ok s' =>
    obtain ⟨hout, htasks, hres, -⟩ := SharedState.recordOutcome_ok h
    exact ⟨htasks, hres, Or.inr hout⟩

/-- Where the parents are there, the outcome is taken. -/
theorem contains_orKeep_recordOutcome (hspec : s.tasks.contains o.specHash = true)
    (hres : s.results.contains o.resultHash = true) :
    (s.orKeep (s.recordOutcome x o now)).outcomes.contains (o.contentHash x) = true := by
  obtain ⟨s', h⟩ : ∃ s', s.recordOutcome x o now = .ok s' :=
    SharedState.recordOutcome_isOk.mpr (Or.inr ⟨hspec, hres⟩)
  rw [h]
  change s'.outcomes.contains _ = true
  rw [(SharedState.recordOutcome_ok h).1]
  exact Keyed.contains_insertOrIgnore.mpr (Or.inr rfl)

/-- The node after it handed an outcome to the store. -/
theorem Grows.recordOutcome (c : Ctx W) (clock : Clock) (n : NodeLoop W) (o : JobOutcome W) :
    Grows n (n.recordOutcome c clock o).2 := by
  rw [recordOutcome_frame]
  obtain ⟨htasks, hres, hout⟩ := orKeep_recordOutcome c.x n.shared o (Clock.unixI64 clock)
  refine ⟨fun k hk => ?_, fun k hk => ?_, fun k hk => ?_, fun _ => List.mem_append_left _,
    fun _ => id⟩
  · change (n.shared.orKeep _).tasks.contains k = true
    rw [htasks]
    exact hk
  · change (n.shared.orKeep _).results.contains k = true
    rw [hres]
    exact hk
  · change (n.shared.orKeep _).outcomes.contains k = true
    rcases hout with hout | hout
    · rw [hout]
      exact hk
    · rw [hout]
      exact contains_insertOrIgnore_of k hk

theorem Filed.recordOutcome {n : NodeLoop W} {c : Ctx W} (h : Filed c.x n) (clock : Clock)
    (o : JobOutcome W) : Filed c.x (n.recordOutcome c clock o).2 := by
  have hg := Grows.recordOutcome c clock n o
  rw [recordOutcome_frame] at hg ⊢
  refine h.write hg rfl (fun r hr => ?_) fun k hk => Or.inl hk
  obtain ⟨-, -, hout⟩ := orKeep_recordOutcome c.x n.shared o (Clock.unixI64 clock)
  change r ∈ (n.shared.orKeep _).outcomes.rows at hr
  rcases hout with hout | hout
  · rw [hout] at hr
    exact Or.inl hr
  · rw [hout] at hr
    rcases Keyed.mem_insertOrIgnore.mp hr with hold | ⟨-, rfl⟩
    · exact Or.inl hold
    · exact Or.inr ⟨o, List.mem_append_right _ (List.mem_singleton.mpr rfl), _, rfl⟩

end Outcomes

/-! ## One move -/

section Step

variable [WeightArith W] {c : Ctx W} {e : Event W} {n n' : NodeLoop W}

/-- The parts of the outcome of a finalised quorum. -/
theorem tryFinalise_outcome {x : Externals W} {q : Quorum W} {now : SystemTime} {nowUnix : UInt64}
    {observer : PeerId} {key : SigningKey} {f : FinalisedQuorum W}
    (h : q.tryFinalise x now nowUnix observer key = some f) :
    f.outcome.specHash = q.specHash ∧ f.outcome.resultHash = q.resultHash := by
  obtain ⟨dec, verdict, -, -, rfl⟩ := Quorum.tryFinalise_eq_some_iff.mp h
  exact ⟨rfl, rfl⟩

omit [WeightArith W] in
theorem Grows.observe {shared : SharedState} {clock : Clock} {result : JobResult}
    (hok : n.shared.recordResult c.x result (Clock.unixI64 clock) = .ok shared) :
    Grows n { n with shared } := by
  obtain ⟨hres, htasks, -, hout, -⟩ := SharedState.recordResult_ok hok
  refine ⟨fun k hk => ?_, fun k hk => ?_, fun k hk => ?_, fun _ => id, fun _ => id⟩
  · exact htasks ▸ hk
  · exact hres ▸ contains_insertOrIgnore_of k hk
  · exact hout ▸ hk

omit [WeightArith W] in
theorem finalised_observe (clock : Clock) (result : JobResult) (t : TaskState W) :
    (NodeLoop.observe c clock result t).finalised = t.finalised := by
  unfold NodeLoop.observe
  split <;> rfl

omit [WeightArith W] in
theorem Grows.applySynced (clock : Clock) (n : NodeLoop W) (o : JobOutcome W) :
    Grows n (n.applySynced c clock o) := by
  unfold NodeLoop.applySynced
  split
  · refine ⟨fun k hk => ?_, fun k hk => ?_, fun k hk => ?_, fun _ => List.mem_append_left _, ?_⟩
    · exact contains_insertOrIgnore_of k hk
    · exact contains_insertOrIgnore_of k hk
    · exact contains_insertOrIgnore_of k hk
    · rintro k (h | h)
      · exact Or.inl h
      · exact Or.inr (List.mem_append_left _ h)
  · exact Grows.refl n

/-- No move takes anything out of the store or the snapshot. -/
theorem Move.grows (h : Move c e n n') : Grows n n' := by
  cases h with
  | spec clock spec _ =>
    refine ⟨fun k hk => contains_insertOrIgnore_of k hk, fun _ => id, fun _ => id, fun _ => id, ?_⟩
    rintro k (⟨t, ht, h⟩ | h)
    · exact Or.inl ⟨t, Keyed.mem_insertOrIgnore.mpr (Or.inl ht), h⟩
    · exact Or.inr h
  | result clock result _ =>
    unfold recordResult
    split
    · exact Grows.refl n
    · next shared hok =>
      refine (Grows.observe hok).trans (Grows.updateTask { n with shared } _ _ _ fun t ht => ?_)
      rw [finalised_observe]
      exact ht
  | storeVote clock v shared count hok =>
    obtain ⟨-, htasks, hres, hout, -⟩ := SharedState.recordVerification_ok hok
    exact ⟨fun k hk => htasks ▸ hk, fun k hk => hres ▸ hk, fun k hk => hout ▸ hk, fun _ => id,
      fun _ => id⟩
  | addVote t q q' =>
    exact Grows.updateTask n t.specHash (fun t => { t with quorum := some q' }) (fun _ => rfl)
      fun _ => id
  | close clock t q f =>
    have hg := Grows.updateTask n t.specHash (fun t => { t with finalised := true })
      (fun _ => rfl) fun _ _ => rfl
    have hclose : Grows n (n.closeTask t q f) :=
      ⟨hg.tasks, hg.results, hg.outcomes, hg.offered, hg.shown⟩
    exact hclose.trans (Grows.recordOutcome c clock (n.closeTask t q f) f.outcome)
  | outcome clock o => exact Grows.recordOutcome c clock n o
  | reputation clock peer delta reason relatedHash =>
    unfold applyReputation
    split <;> exact ⟨fun _ => id, fun _ => id, fun _ => id, fun _ => id, fun _ => id⟩
  | markExecuted hash =>
    exact Grows.updateTask n hash (fun t => { t with selfExecuted := true }) (fun _ => rfl)
      fun _ => id
  | sign clock coin t result verdict =>
    have hg := Grows.updateTask n result.specHash (fun t => { t with selfVerified := true })
      (fun _ => rfl) fun _ => id
    exact ⟨hg.tasks, hg.results, hg.outcomes, hg.offered, hg.shown⟩
  | synced clock o => exact Grows.applySynced clock n o
  | publishVote | publishOther | advertisement | readiness =>
    exact ⟨fun _ => id, fun _ => id, fun _ => id, fun _ => id, fun _ => id⟩

omit [WeightArith W] in
theorem Filed.recordResult (h : Filed c.x n) (clock : Clock) (result : JobResult) :
    Filed c.x (n.recordResult c clock result) := by
  unfold NodeLoop.recordResult
  split
  · exact h
  · next shared hok =>
    obtain ⟨hres, -, -, hout, -⟩ := SharedState.recordResult_ok hok
    have hstored : Filed c.x { n with shared } :=
      h.write (Grows.observe hok) rfl (fun r hr => Or.inl (hout ▸ hr)) fun k hk => Or.inl hk
    refine hstored.updateTask _ _ _ (fun t ht hh q hq => ?_) fun t _ _ hfin => ?_
    · -- a task without a result opens the quorum of this one, whose row is now there
      unfold NodeLoop.observe at hq
      split at hq
      · obtain rfl := Option.some.inj hq
        refine ⟨hh.symm, ?_⟩
        change shared.results.contains (result.contentHash c.x) = true
        rw [hres]
        exact Keyed.contains_insertOrIgnore.mpr (Or.inr rfl)
      · exact hstored.quorum t ht q hq
    · rw [finalised_observe] at hfin
      exact Or.inl hfin

omit [WeightArith W] in
theorem Filed.applySynced (h : Filed c.x n) (clock : Clock) (o : JobOutcome W) :
    Filed c.x (n.applySynced c clock o) := by
  have hg := Grows.applySynced (c := c) clock n o
  unfold NodeLoop.applySynced at hg ⊢
  split
  · next hacc =>
    rw [if_pos hacc] at hg
    have hlast : o ∈ n.offered ++ [o] := List.mem_append_right _ (List.mem_singleton.mpr rfl)
    refine h.write hg rfl (fun r hr => ?_) fun k hk => ?_
    · rcases Keyed.mem_insertOrIgnore.mp hr with hold | ⟨-, rfl⟩
      · exact Or.inl hold
      · exact Or.inr ⟨o, hlast, _, rfl⟩
    · rcases List.mem_append.mp hk with hold | hnew
      · exact Or.inl hold
      · refine Or.inr ⟨o, hlast, (List.mem_singleton.mp hnew).symm, ?_⟩
        exact Keyed.contains_insertOrIgnore.mpr (Or.inr rfl)
  · exact h

/-- Closing a task: the parents of the outcome are there, so the store takes it. -/
theorem Filed.close (h : Filed c.x n) {clock : Clock} {t : TaskState W} {q : Quorum W}
    {f : FinalisedQuorum W} (ht : t ∈ n.tasks.rows) (hq : t.quorum = some q)
    (hf : q.tryFinalise c.x clock.wall (unixNow clock.wall) c.localPeerId c.signingKey = some f) :
    Filed c.x ((n.closeTask t q f).recordOutcome c clock f.outcome).2 := by
  obtain ⟨hqspec, hqres⟩ := h.quorum t ht q hq
  obtain ⟨hspec, hres⟩ := tryFinalise_outcome hf
  have hwritten := h.recordOutcome clock f.outcome
  rw [recordOutcome_frame] at hwritten ⊢
  have hkept : Kept c.x { n with
      shared := n.shared.orKeep (n.shared.recordOutcome c.x f.outcome (Clock.unixI64 clock))
      offered := n.offered ++ [f.outcome] } t.specHash := by
    refine ⟨f.outcome, List.mem_append_right _ (List.mem_singleton.mpr rfl), ?_, ?_⟩
    · exact hspec.trans hqspec
    · refine contains_orKeep_recordOutcome ?_ ?_
      · rw [hspec, hqspec]
        exact h.spec t ht
      · rw [hres]
        exact hqres
  have hclosed := hwritten.updateTask t.specHash (fun t => { t with finalised := true })
    (fun _ => rfl) (fun u hu _ q' hq' => hwritten.quorum u hu q' hq') fun u _ hu _ =>
      Or.inr (hu ▸ hkept)
  exact ⟨hclosed.spec, hclosed.quorum, hclosed.rows, hclosed.shown⟩

theorem Move.filed (h : Move c e n n') (hn : Filed c.x n) : Filed c.x n' := by
  have hg := h.grows
  cases h with
  | spec clock spec _ =>
    -- the new task is stored, open and without a quorum
    refine ⟨fun t ht => ?_, fun t ht q hq => ?_, hn.rows, ?_⟩
    · rcases Keyed.mem_insertOrIgnore.mp ht with ht | ⟨-, rfl⟩
      · exact hg.tasks _ (hn.spec t ht)
      · exact Keyed.contains_insertOrIgnore.mpr (Or.inr rfl)
    · rcases Keyed.mem_insertOrIgnore.mp ht with ht | ⟨-, rfl⟩
      · exact hn.quorum t ht q hq
      · cases hq
    · rintro k (⟨t, ht, hh, hfin⟩ | hk)
      · rcases Keyed.mem_insertOrIgnore.mp ht with ht | ⟨-, rfl⟩
        · exact hn.shown k (Or.inl ⟨t, ht, hh, hfin⟩)
        · cases hfin
      · exact hn.shown k (Or.inr hk)
  | result clock result _ => exact hn.recordResult clock result
  | storeVote clock v shared count hok =>
    obtain ⟨-, -, -, hout, -⟩ := SharedState.recordVerification_ok hok
    exact hn.write hg rfl (fun r hr => Or.inl (hout ▸ hr)) fun k hk => Or.inl hk
  | addVote t q q' v key ht hv hadd =>
    refine hn.updateTask t.specHash _ _ (fun u hu hut q'' hq'' => ?_) fun _ _ _ => Or.inl
    obtain rfl := Option.some.inj hq''
    obtain ⟨-, hres, hspec, -⟩ := Quorum.addVerification_frame c.x q v harnessReputation key
    rw [hadd] at hres hspec
    obtain ⟨hs, hr⟩ := hn.quorum t ht.mem q ht.quorum
    rw [hres, hspec, hut]
    exact ⟨hs, hr⟩
  | close clock t q f ht hopen hq hf => exact hn.close ht hq hf
  | outcome clock o => exact hn.recordOutcome clock o
  | reputation clock peer delta reason relatedHash =>
    unfold applyReputation
    split <;> exact ⟨hn.spec, hn.quorum, hn.rows, hn.shown⟩
  | markExecuted hash =>
    exact hn.updateTask hash _ _ (fun t ht _ q hq => hn.quorum t ht q hq) fun _ _ _ => Or.inl
  | sign clock coin t result verdict =>
    have hmark := hn.updateTask result.specHash (fun t => { t with selfVerified := true })
      (fun _ => rfl) (fun t ht _ q hq => hn.quorum t ht q hq) fun _ _ _ => Or.inl
    exact ⟨hmark.spec, hmark.quorum, hmark.rows, hmark.shown⟩
  | synced clock o => exact hn.applySynced clock o
  | publishVote | publishOther | advertisement | readiness =>
    exact ⟨hn.spec, hn.quorum, hn.rows, hn.shown⟩

theorem Grows.step (groupOf : PeerId → UInt8) (n : NodeLoop W) (a : Turn W) :
    Grows n (n.step c groupOf a) :=
  (step_moves groupOf n a).invariant (I := Grows n) (fun _ _ hm hn => hn.trans hm.grows)
    (Grows.refl n)

theorem Filed.step (groupOf : PeerId → UInt8) (h : Filed c.x n) (a : Turn W) :
    Filed c.x (n.step c groupOf a) :=
  (step_moves groupOf n a).invariant (fun _ _ hm hn => hm.filed hn) h

end Step

/-! ## The snapshot -/

/-- The outcomes the node handled can be told apart and read back. -/
structure Sound (x : Externals W) (n : NodeLoop W) : Prop where
  distinct : ∀ o ∈ n.offered, ∀ o' ∈ n.offered, o.contentHash x = o'.contentHash x →
    o.specHash = o'.specHash
  readable : ∀ o ∈ n.offered, x.outcomeCbor.decode (x.outcomeCbor.encode o) = some o

theorem Sound.of_grows {x : Externals W} {n n' : NodeLoop W} (h : Sound x n') (hg : Grows n n') :
    Sound x n :=
  ⟨fun o ho o' ho' => h.distinct o (hg.offered ho) o' (hg.offered ho'),
    fun o ho => h.readable o (hg.offered ho)⟩

/-- The row of a kept outcome is one of the same spec. -/
theorem exists_row_of_kept {x : Externals W} {n : NodeLoop W} (hfiled : Filed x n)
    (hsound : Sound x n) {h : ContentHash} (hkept : n.Kept x h) :
    ∃ r ∈ n.shared.outcomes.rows, r.specHash = h := by
  obtain ⟨o, ho, hspec, hc⟩ := hkept
  obtain ⟨r, hr, hhash⟩ := Keyed.contains_iff.mp hc
  obtain ⟨o', ho', now, rfl⟩ := hfiled.rows r hr
  exact ⟨_, hr, (hsound.distinct o' ho' o ho hhash).trans hspec⟩

/-- What `outcome_for_spec` reads is the body of a row of the spec. -/
theorem outcomeForSpec_eq_some {x : Externals W} {s : SharedState} {h : ContentHash}
    {o : JobOutcome W} (ho : outcomeForSpec x s h = .ok (some o)) :
    ∃ r ∈ s.outcomes.rows, r.specHash = h ∧ x.outcomeCbor.decode r.outcomeCbor = some o := by
  unfold outcomeForSpec at ho
  split at ho
  · cases ho
  · next row hrow =>
    have hmem := mem_sortByKey.mp (List.mem_of_mem_head? (Option.mem_def.mpr hrow))
    obtain ⟨hr, hh⟩ := List.mem_filter.mp hmem
    cases hdec : x.outcomeCbor.decode row.outcomeCbor with
    | none => simp [hdec, Except.map] at ho
    | some o' =>
      simp only [hdec, okOr_some, Except.map, Except.ok.injEq, Option.some.injEq] at ho
      exact ⟨row, hr, of_decide_eq_true hh, by rw [hdec, ho]⟩

/-- With every row readable, a spec that has a row has an outcome. -/
theorem outcomeForSpec_of_row {x : Externals W} {s : SharedState} {h : ContentHash}
    (hread : ∀ r ∈ s.outcomes.rows, ∃ o, x.outcomeCbor.decode r.outcomeCbor = some o)
    (hrow : ∃ r ∈ s.outcomes.rows, r.specHash = h) : ∃ o, outcomeForSpec x s h = .ok (some o) := by
  unfold outcomeForSpec
  split
  · next hnone =>
    obtain ⟨r, hr, hh⟩ := hrow
    rw [List.head?_eq_none_iff] at hnone
    have hmem : r ∈ sortByKey (fun r : OutcomeRow => -r.observedAt.toInt)
        (s.outcomes.rows.filter (·.specHash = h)) :=
      mem_sortByKey.mpr (List.mem_filter.mpr ⟨hr, decide_eq_true hh⟩)
    rw [hnone] at hmem
    cases hmem
  · next row hsome =>
    have hmem := mem_sortByKey.mp (List.mem_of_mem_head? (Option.mem_def.mpr hsome))
    obtain ⟨o, hdec⟩ := hread row (List.mem_filter.mp hmem).1
    exact ⟨o, by rw [hdec]; rfl⟩

theorem outcomeOf_eq_some_iff {x : Externals W} {n : NodeLoop W} {h : ContentHash}
    {o : JobOutcome W} :
    n.outcomeOf x h = some o ↔ n.Shown h ∧ outcomeForSpec x n.shared h = .ok (some o) := by
  have hshown : ((n.tasks.find? h).any (·.finalised) || decide (h ∈ n.syncedOutcomes)) = true ↔
      n.Shown h := by
    rw [Bool.or_eq_true, Option.any_eq_true, decide_eq_true_iff]
    refine or_congr ⟨?_, ?_⟩ Iff.rfl
    · rintro ⟨t, ht, hfin⟩
      obtain ⟨hmem, hh⟩ := Keyed.find?_eq_some_iff.mp ht
      exact ⟨t, hmem, hh, hfin⟩
    · rintro ⟨t, hmem, hh, hfin⟩
      exact ⟨t, Keyed.find?_eq_some_iff.mpr ⟨hmem, hh⟩, hfin⟩
  unfold outcomeOf
  split
  · next hc =>
    have hs := hshown.mp hc
    cases hout : outcomeForSpec x n.shared h with
    | error e => simp [hs]
    | ok o' => simp [hs]
  · next hc => simp [show ¬ n.Shown h from fun hs => hc (hshown.mpr hs)]

/-- In a filed and sound node, the snapshot shows all it looks up. -/
theorem hasOutcomeForSpec_iff {x : Externals W} {n : NodeLoop W} (hfiled : Filed x n)
    (hsound : Sound x n) (h : ContentHash) : n.hasOutcomeForSpec x h = true ↔ n.Shown h := by
  rw [hasOutcomeForSpec, Option.isSome_iff_exists]
  constructor
  · rintro ⟨o, ho⟩
    exact (outcomeOf_eq_some_iff.mp ho).1
  · intro hs
    obtain ⟨o, ho⟩ := outcomeForSpec_of_row (x := x) (fun r hr => by
      obtain ⟨o, ho, now, rfl⟩ := hfiled.rows r hr
      exact ⟨o, hsound.readable o ho⟩) (exists_row_of_kept hfiled hsound (hfiled.shown h hs))
    exact ⟨o, outcomeOf_eq_some_iff.mpr ⟨hs, ho⟩⟩

theorem filed_start (c : Ctx W) (clock : Clock) : Filed c.x (start c clock) := by
  have htasks : (start c clock).tasks.rows = [] := rfl
  have hrows : (start c clock).shared.outcomes.rows = [] := rfl
  have hsynced : (start c clock).syncedOutcomes = [] := rfl
  refine ⟨?_, ?_, ?_, ?_⟩
  · simp [htasks]
  · simp [htasks]
  · simp [hrows]
  · simp [Shown, htasks, hsynced]

/-- **Nothing a node decided or caught up on is missing from its snapshot.**  After
every run the snapshot shows an outcome for exactly the specs the node finalised or
synced, each outcome it shows is about the spec it stands under, and a spec that has
an outcome keeps one through every further run. -/
theorem snapshot_complete [WeightArith W] (c : Ctx W) (clock : Clock) (groupOf : PeerId → UInt8)
    (as bs : List (Turn W))
    (hsound : Sound c.x (run (step c groupOf) (start c clock) (as ++ bs))) :
    let n := run (step c groupOf) (start c clock) as
    let n' := run (step c groupOf) (start c clock) (as ++ bs)
    (∀ h, n'.hasOutcomeForSpec c.x h = true ↔ n'.Shown h) ∧
    (∀ h o, n'.outcomeOf c.x h = some o → o.specHash = h ∧ o ∈ n'.offered) ∧
    ∀ h, n.hasOutcomeForSpec c.x h = true → n'.hasOutcomeForSpec c.x h = true := by
  intro n n'
  have hfiled : ∀ l, Filed c.x (run (step c groupOf) (start c clock) l) := fun l =>
    run_invariant (fun _ a hn => hn.step groupOf a) (filed_start c clock) l
  have hgrows : Grows n n' := by
    change Grows n (run (step c groupOf) (start c clock) (as ++ bs))
    rw [run_append]
    exact run_invariant (I := Grows n) (fun m a hm => hm.trans (Grows.step groupOf m a))
      (Grows.refl n) bs
  have hshow := hasOutcomeForSpec_iff (hfiled (as ++ bs)) hsound
  refine ⟨hshow, fun h o ho => ?_, fun h hh => ?_⟩
  · obtain ⟨r, hr, hspec, hdec⟩ := outcomeForSpec_eq_some (outcomeOf_eq_some_iff.mp ho).2
    obtain ⟨o', ho', now, rfl⟩ := (hfiled (as ++ bs)).rows r hr
    obtain rfl : o' = o := Option.some.inj ((hsound.readable o' ho').symm.trans hdec)
    exact ⟨hspec, ho'⟩
  · have hbefore := (hasOutcomeForSpec_iff (hfiled as) (hsound.of_grows hgrows) h).mp hh
    exact (hshow h).mpr (hgrows.shown h hbefore)

/-! ### A node that decides with its own vote -/

/-- One vote decides, at once. -/
def quickQuorum : QuorumConfig ℚ := { QuorumConfig.standard with m := 1, n := 1, tMin := 0 }

/-- The outcome peer 9 signs on the small result after its own vote. -/
def ninthOutcome : JobOutcome ℚ :=
  { Wire.outcomeOf (smallSpecHash false) (smallResultHash false) (.valid 0 1 0 0) 0 9 with
    verificationHashes := [⟨pad32 []⟩] }

def ninthCtx : Ctx ℚ where
  x := { Externals.small false [1, 2] [] [] with
    outcomeCbor := ⟨fun _ => [1], fun _ => some ninthOutcome⟩ }
  localPeerId := peerOf 9
  signingKey := keyOf 9
  verifyingKey := (keyOf 9).verifyingKey
  quorumConfig := quickQuorum
  malicious := none

def gossipTurn (topic : Topic) (data : Bytes) : Turn ℚ :=
  ⟨⟨0, 0⟩, .gossip (peerOf 1) topic data false⟩

/-- Two advertisements, the spec and its result. -/
def ninthRun : List (Turn ℚ) :=
  [gossipTurn .caps (adBytes 1), gossipTurn .caps (adBytes 2),
    gossipTurn .tasks (specBytes false), gossipTurn .verify (tagJobResult :: resultBytes false)]

theorem ninth_snapshot :
    (run (step ninthCtx fun _ => 0) (start ninthCtx ⟨0, 0⟩)
      (ninthRun ++ ninthRun)).hasOutcomeForSpec ninthCtx.x (smallSpecHash false) = true := by
  have hoff : (run (step ninthCtx fun _ => 0) (start ninthCtx ⟨0, 0⟩)
      (ninthRun ++ ninthRun)).offered = [ninthOutcome] := by decide +kernel
  have hsound : Sound ninthCtx.x (run (step ninthCtx fun _ => 0) (start ninthCtx ⟨0, 0⟩)
      (ninthRun ++ ninthRun)) := by
    refine ⟨fun o ho o' ho' _ => ?_, fun o ho => ?_⟩
    · rw [hoff, List.mem_singleton] at ho ho'
      rw [ho, ho']
    · rw [hoff, List.mem_singleton] at ho
      rw [ho]
      rfl
  refine (snapshot_complete ninthCtx ⟨0, 0⟩ (fun _ => 0) ninthRun ninthRun hsound).2.2 _ ?_
  decide +kernel

end NodeLoop

end Parseh.Chaos
