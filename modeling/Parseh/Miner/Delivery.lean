import Parseh.Miner.Finalise

/-!
# Delivery orders of one task

A spec, its result and the votes on it arrive on two topics in any order.  What
the node makes of an order is told by three things: is the task stored, is its
quorum open, and which votes has it counted (`Progress`).

* `counted_perm_iff`: the orders in which this machine counts every vote;
* `sim_run`: the node, from any state in which the task is unseen, moves as the
  machine does;
* `counted_all_iff`: hence which delivery orders make the node count all votes.
  A message that overtakes the one it depends on is dropped and never retried.
-/

namespace Parseh.Miner

open Parseh.Lib Parseh.Wire Parseh.Core Parseh.Shared Parseh.Verify

/-! ## The progress of a task -/

/-- One message of the task. -/
inductive TaskMessage
  | spec
  | result
  | vote (v : JobVerification)
  deriving DecidableEq

/-- The votes among the messages, in order. -/
def votesIn (l : List TaskMessage) : List JobVerification :=
  l.filterMap fun m => match m with
    | .vote v => some v
    | _ => none

structure Progress where
  task : Bool
  opened : Bool
  counted : List JobVerification

namespace Progress

/-- Nothing has arrived. -/
def start : Progress := ⟨false, false, []⟩

/-- One delivery.  `own` says that the node executes the spec itself and that its
own result is the result of the task. -/
def advance (own : Bool) (p : Progress) : TaskMessage → Progress
  | .spec => if own then ⟨true, true, []⟩ else { p with task := true }
  | .result => if p.opened then p else if p.task then ⟨true, true, []⟩ else p
  | .vote v => if p.opened then { p with counted := p.counted ++ [v] } else p

end Progress

theorem votesIn_append (l₁ l₂ : List TaskMessage) :
    votesIn (l₁ ++ l₂) = votesIn l₁ ++ votesIn l₂ := List.filterMap_append

theorem mem_votesIn {l : List TaskMessage} {v : JobVerification} :
    v ∈ votesIn l ↔ TaskMessage.vote v ∈ l := by
  simp only [votesIn, List.mem_filterMap]
  constructor
  · rintro ⟨m, hm, h⟩
    cases m <;> simp_all
  · intro h
    exact ⟨.vote v, h, rfl⟩

theorem votesIn_map_vote (votes : List JobVerification) :
    votesIn (votes.map .vote) = votes := by
  simp [votesIn, List.filterMap_map]

/-- Before the spec nothing happens. -/
theorem advance_before_spec (own : Bool) {l : List TaskMessage} (h : TaskMessage.spec ∉ l) :
    l.foldl (Progress.advance own) .start = .start := by
  induction l with
  | nil => rfl
  | cons m l ih =>
    have hl : TaskMessage.spec ∉ l := fun hm => h (List.mem_cons_of_mem m hm)
    cases m with
    | spec => exact absurd List.mem_cons_self h
    | result => exact ih hl
    | vote v => exact ih hl

/-- Before the result nothing is opened. -/
theorem advance_before_result (own : Bool) {l : List TaskMessage} (hs : TaskMessage.spec ∉ l)
    (hr : TaskMessage.result ∉ l) {p : Progress} (hp : p.opened = false) :
    l.foldl (Progress.advance own) p = p := by
  induction l with
  | nil => rfl
  | cons m l ih =>
    have hs' : TaskMessage.spec ∉ l := fun hm => hs (List.mem_cons_of_mem m hm)
    have hr' : TaskMessage.result ∉ l := fun hm => hr (List.mem_cons_of_mem m hm)
    cases m with
    | spec => exact absurd List.mem_cons_self hs
    | result => exact absurd List.mem_cons_self hr
    | vote v =>
      rw [List.foldl_cons, show p.advance own (.vote v) = p by simp [Progress.advance, hp]]
      exact ih hs' hr'

/-- Once the quorum is open every vote is counted. -/
theorem counted_of_opened (own : Bool) {l : List TaskMessage} (hs : TaskMessage.spec ∉ l)
    {p : Progress} (hp : p.opened = true) :
    (l.foldl (Progress.advance own) p).counted = p.counted ++ votesIn l := by
  induction l generalizing p with
  | nil => simp [votesIn]
  | cons m l ih =>
    have hs' : TaskMessage.spec ∉ l := fun hm => hs (List.mem_cons_of_mem m hm)
    cases m with
    | spec => exact absurd List.mem_cons_self hs
    | result =>
      rw [List.foldl_cons, show p.advance own .result = p by simp [Progress.advance, hp], ih hs' hp]
      rfl
    | vote v =>
      rw [List.foldl_cons, ih hs' (by simp [Progress.advance, hp])]
      simp [Progress.advance, hp, votesIn]

/-! ## Orders that count every vote -/

/-- In a list without repetitions, `a` comes before exactly what follows it. -/
theorem pair_sublist_iff {α : Type} {l₁ l₂ : List α} {a b : α} (h : (l₁ ++ a :: l₂).Nodup) :
    [a, b].Sublist (l₁ ++ a :: l₂) ↔ b ∈ l₂ := by
  constructor
  · intro hsub
    obtain ⟨s₁, s₂, heq, h₁, h₂⟩ := List.sublist_append_iff.mp hsub
    cases s₁ with
    | nil =>
      rw [List.nil_append] at heq
      subst heq
      exact List.singleton_sublist.mp (List.cons_sublist_cons.mp h₂)
    | cons x s₁ =>
      -- then `a` would stand among the elements before itself
      rw [List.cons_append, List.cons.injEq] at heq
      obtain ⟨rfl, -⟩ := heq
      have hin : a ∈ l₁ := h₁.subset List.mem_cons_self
      exact absurd rfl ((List.nodup_append.mp h).2.2 a hin a List.mem_cons_self)
  · intro hb
    have hpair : [a, b].Sublist (a :: l₂) := (List.singleton_sublist.mpr hb).cons_cons a
    exact hpair.trans (List.sublist_append_right l₁ (a :: l₂))

/-- Of two parts that together hold every vote, the second holds them all exactly
when the first holds none. -/
theorem perm_right_iff {α : Type} {l₁ l₂ l : List α} (h : (l₁ ++ l₂).Perm l) :
    l₂.Perm l ↔ l₁ = [] := by
  constructor
  · intro hp
    have hlen := h.length_eq
    rw [List.length_append, hp.length_eq] at hlen
    exact List.eq_nil_of_length_eq_zero (by omega)
  · rintro rfl
    exact h

/-- No vote stands before a message exactly when every vote stands after it. -/
theorem no_votes_before_iff {l₁ l₂ : List TaskMessage} (m : TaskMessage)
    {votes : List JobVerification} (hm : ∀ v, m ≠ .vote v) (hnd : (l₁ ++ m :: l₂).Nodup)
    (hv : ∀ v, TaskMessage.vote v ∈ l₁ ++ m :: l₂ ↔ v ∈ votes) :
    votesIn l₁ = [] ↔ ∀ v ∈ votes, [m, .vote v].Sublist (l₁ ++ m :: l₂) := by
  constructor
  · intro hnone v hmem
    rw [pair_sublist_iff hnd]
    rcases List.mem_append.mp ((hv v).mpr hmem) with h | h
    · rw [← mem_votesIn, hnone] at h
      cases h
    · exact (List.mem_cons.mp h).resolve_left fun e => hm v e.symm
  · intro hall
    rw [List.eq_nil_iff_forall_not_mem]
    intro v hin
    have hl₁ := mem_votesIn.mp hin
    have hmem := (hv v).mp (List.mem_append_left _ hl₁)
    have hl₂ := (pair_sublist_iff hnd).mp (hall v hmem)
    exact (List.nodup_append.mp hnd).2.2 _ hl₁ _ (List.mem_cons_of_mem m hl₂) rfl

/-- Every vote follows the message that opens the quorum: the spec if the node
executes it itself, else the result, which must follow the spec. -/
def InOrder (own : Bool) (votes : List JobVerification) (l : List TaskMessage) : Prop :=
  votes = [] ∨ (own = true ∧ ∀ v ∈ votes, [.spec, .vote v].Sublist l) ∨
    ([.spec, .result].Sublist l ∧ ∀ v ∈ votes, [.result, .vote v].Sublist l)

/-- The node that executes the spec itself counts what follows the spec. -/
theorem counted_own {l₁ l₂ : List TaskMessage} (h₁ : TaskMessage.spec ∉ l₁)
    (h₂ : TaskMessage.spec ∉ l₂) :
    ((l₁ ++ .spec :: l₂).foldl (Progress.advance true) .start).counted = votesIn l₂ := by
  rw [List.foldl_append, advance_before_spec true h₁, List.foldl_cons,
    counted_of_opened true h₂ (by rfl)]
  rfl

/-- Otherwise it counts what follows the result, if that follows the spec. -/
theorem counted_in_order {l₁ l₂ l₃ : List TaskMessage} (h₁ : TaskMessage.spec ∉ l₁)
    (h₂ : TaskMessage.spec ∉ l₂) (h₂' : TaskMessage.result ∉ l₂) (h₃ : TaskMessage.spec ∉ l₃) :
    ((l₁ ++ .spec :: (l₂ ++ .result :: l₃)).foldl (Progress.advance false) .start).counted =
      votesIn l₃ := by
  rw [List.foldl_append, advance_before_spec false h₁, List.foldl_cons, List.foldl_append,
    advance_before_result false h₂ h₂' (by rfl), List.foldl_cons,
    counted_of_opened false h₃ (by rfl)]
  rfl

/-- A result that comes before its spec is lost, and every vote with it. -/
theorem counted_overtaken {l₁ l₂ : List TaskMessage} (h₁ : TaskMessage.spec ∉ l₁)
    (h₂ : TaskMessage.spec ∉ l₂) (h₂' : TaskMessage.result ∉ l₂) :
    ((l₁ ++ .spec :: l₂).foldl (Progress.advance false) .start).counted = [] := by
  rw [List.foldl_append, advance_before_spec false h₁, List.foldl_cons,
    advance_before_result false h₂ h₂' (by rfl)]
  rfl

theorem not_mem_of_nodup {α : Type} {l₁ l₂ : List α} {a : α} (h : (l₁ ++ a :: l₂).Nodup) :
    a ∉ l₁ ∧ a ∉ l₂ :=
  ⟨fun ha => (List.nodup_append.mp h).2.2 a ha a List.mem_cons_self rfl,
    (List.nodup_cons.mp (List.nodup_append.mp h).2.1).1⟩

/-- `counted_perm_iff` for a node that does not execute the spec itself. -/
private theorem counted_perm_iff_false {l₁ l₂ : List TaskMessage} {votes : List JobVerification}
    (hnd : (l₁ ++ .spec :: l₂).Nodup) (hvotes : (votesIn (l₁ ++ .spec :: l₂)).Perm votes) :
    ((l₁ ++ .spec :: l₂).foldl (Progress.advance false) .start).counted.Perm votes ↔
      votes = [] ∨ ([.spec, .result].Sublist (l₁ ++ .spec :: l₂) ∧
        ∀ v ∈ votes, [.result, .vote v].Sublist (l₁ ++ .spec :: l₂)) := by
  obtain ⟨hs₁, hs₂⟩ := not_mem_of_nodup hnd
  by_cases hr : TaskMessage.result ∈ l₂
  · have hsr := (pair_sublist_iff hnd).mpr hr
    obtain ⟨l₃, l₄, rfl⟩ := List.append_of_mem hr
    have hassoc : l₁ ++ .spec :: (l₃ ++ .result :: l₄) =
        (l₁ ++ .spec :: l₃) ++ .result :: l₄ := by simp
    have hr₃ : TaskMessage.result ∉ l₃ := fun h =>
      (not_mem_of_nodup (hassoc ▸ hnd)).1 (List.mem_append_right _ (List.mem_cons_of_mem _ h))
    rw [counted_in_order hs₁ (fun h => hs₂ (List.mem_append_left _ h)) hr₃
      (fun h => hs₂ (List.mem_append_right _ (List.mem_cons_of_mem _ h)))]
    have hv : ∀ v, TaskMessage.vote v ∈ (l₁ ++ .spec :: l₃) ++ .result :: l₄ ↔ v ∈ votes :=
      fun v => mem_votesIn.symm.trans (hassoc ▸ hvotes).mem_iff
    have hbefore := no_votes_before_iff .result (fun v => nofun) (hassoc ▸ hnd) hv
    have hparts : (votesIn (l₁ ++ .spec :: l₃) ++ votesIn l₄).Perm votes := by
      rw [hassoc, votesIn_append] at hvotes
      exact hvotes
    rw [(perm_right_iff hparts).trans hbefore, hassoc]
    constructor
    · exact fun h => Or.inr ⟨hassoc ▸ hsr, h⟩
    · rintro (rfl | ⟨-, h⟩)
      · exact fun v hv => by cases hv
      · exact h
  · rw [counted_overtaken hs₁ hs₂ hr, List.nil_perm]
    constructor
    · exact Or.inl
    · rintro (h | ⟨h, -⟩)
      · exact h
      · exact absurd ((pair_sublist_iff hnd).mp h) hr

/-- `counted_perm_iff` for a node whose own result is the result of the task. -/
private theorem counted_perm_iff_true {l₁ l₂ : List TaskMessage} {votes : List JobVerification}
    (hnd : (l₁ ++ .spec :: l₂).Nodup) (hvotes : (votesIn (l₁ ++ .spec :: l₂)).Perm votes) :
    ((l₁ ++ .spec :: l₂).foldl (Progress.advance true) .start).counted.Perm votes ↔
      ∀ v ∈ votes, [.spec, .vote v].Sublist (l₁ ++ .spec :: l₂) := by
  obtain ⟨hs₁, hs₂⟩ := not_mem_of_nodup hnd
  have hv : ∀ v, TaskMessage.vote v ∈ l₁ ++ .spec :: l₂ ↔ v ∈ votes :=
    fun v => mem_votesIn.symm.trans hvotes.mem_iff
  have hparts : (votesIn l₁ ++ votesIn l₂).Perm votes := by
    rw [votesIn_append] at hvotes
    exact hvotes
  have hbefore := no_votes_before_iff .spec (fun v => nofun) hnd hv
  rw [counted_own hs₁ hs₂]
  exact (perm_right_iff hparts).trans hbefore

/-- **Orders that count every vote.** -/
theorem counted_perm_iff (own : Bool) {l : List TaskMessage} {votes : List JobVerification}
    (hl : l.Perm (.spec :: .result :: votes.map .vote)) (hnd : votes.Nodup) :
    (l.foldl (Progress.advance own) .start).counted.Perm votes ↔ InOrder own votes l := by
  have hndl : l.Nodup := by
    have hmap : (votes.map TaskMessage.vote).Nodup := hnd.map fun _ _ h => by
      injection h
    rw [hl.nodup_iff]
    simp [hmap]
  have hvotes : (votesIn l).Perm votes := by
    have hperm : (votesIn l).Perm (votesIn (.spec :: .result :: votes.map .vote)) :=
      hl.filterMap _
    rwa [show votesIn (.spec :: .result :: votes.map .vote) = votes from
      votesIn_map_vote votes] at hperm
  obtain ⟨l₁, l₂, rfl⟩ := List.append_of_mem (hl.mem_iff.mpr List.mem_cons_self)
  cases own with
  | false =>
    rw [counted_perm_iff_false hndl hvotes]
    simp [InOrder]
  | true =>
    rw [counted_perm_iff_true hndl hvotes]
    refine ⟨fun h => Or.inr (Or.inl ⟨rfl, h⟩), ?_⟩
    rintro (rfl | ⟨-, h⟩ | ⟨hsr, h⟩)
    · exact fun v hv => by cases hv
    · exact h
    · -- the votes follow the result, which follows the spec
      intro v hmem
      obtain ⟨l₃, l₄, rfl⟩ := List.append_of_mem ((pair_sublist_iff hndl).mp hsr)
      have hassoc : l₁ ++ .spec :: (l₃ ++ .result :: l₄) =
          (l₁ ++ .spec :: l₃) ++ .result :: l₄ := by simp
      have hv₄ : TaskMessage.vote v ∈ l₄ :=
        (pair_sublist_iff (hassoc ▸ hndl)).mp (hassoc ▸ h v hmem)
      exact (pair_sublist_iff hndl).mpr (List.mem_append_right _ (List.mem_cons_of_mem _ hv₄))

/-! ## The messages of a task at a node -/

/-- A spec, its result and the votes on it, with the bytes they arrive as. -/
structure TaskMessages where
  spec : JobSpec
  specBytes : Bytes
  result : JobResult
  resultBytes : Bytes
  votes : List JobVerification
  voteBytes : JobVerification → Bytes

structure Delivery where
  clock : Clock
  source : Option PeerId
  message : TaskMessage

variable {W : Type}

/-- The step that delivers one message of the task. -/
def TaskMessages.deliver (T : TaskMessages) (d : Delivery) : Step W :=
  ⟨d.clock, match d.message with
    | .spec => .gossip .tasks ⟨d.source, T.specBytes⟩
    | .result => .gossip .verify ⟨d.source, tagJobResult :: T.resultBytes⟩
    | .vote v => .gossip .verify ⟨d.source, tagJobVerification :: T.voteBytes v⟩⟩

/-- All messages decode, are signed under the keys the node knows, and belong
together; the verifiers are distinct. -/
structure Deliverable (c : Ctx W) (n : Node W) (T : TaskMessages) : Prop where
  specDecodes : c.x.specCbor.decode T.specBytes = some T.spec
  specSigned : ∃ key, n.peerRegistry.verifyingKey T.spec.submitter = some key ∧
    T.spec.verifySignature c.x key = .ok ()
  resultDecodes : c.x.resultCbor.decode T.resultBytes = some T.result
  resultSigned : ∃ key, n.peerRegistry.verifyingKey T.result.executor = some key ∧
    T.result.verifySignature c.x key = .ok ()
  answers : T.result.specHash = T.spec.contentHash c.x
  votesDecode : ∀ v ∈ T.votes, c.x.verificationCbor.decode (T.voteBytes v) = some v
  votesSigned : ∀ v ∈ T.votes, ∃ key, n.peerRegistry.verifyingKey v.verifier = some key ∧
    v.verifySignature c.x key = .ok ()
  about : ∀ v ∈ T.votes, v.resultHash = T.result.contentHash c.x
  distinct : (T.votes.map (·.verifier)).Nodup

theorem Deliverable.congr {c : Ctx W} {n n' : Node W} {T : TaskMessages}
    (hd : Deliverable c n T) (h : n'.peerRegistry = n.peerRegistry) : Deliverable c n' T :=
  { hd with
    specSigned := h ▸ hd.specSigned
    resultSigned := h ▸ hd.resultSigned
    votesSigned := h ▸ hd.votesSigned }

/-- The node has not heard of the task. -/
structure Unseen (c : Ctx W) (n : Node W) (T : TaskMessages) : Prop where
  task : n.shared.tasks.contains (T.spec.contentHash c.x) = false
  result : n.shared.results.contains (T.result.contentHash c.x) = false
  quorum : n.quorums.peek (T.result.contentHash c.x) = none

/-- The votes counted in the open quorum of a result. -/
def countedVotes (n : Node W) (rh : ContentHash) : List JobVerification :=
  match n.quorums.peek rh with
  | some oq => oq.quorum.votes.map (·.verification)
  | none => []

/-- The node executes the spec itself, and its own result is the one delivered. -/
def executesOwn (c : Ctx W) (n : Node W) (T : TaskMessages) (clock : Clock) : Bool :=
  elected c n T.spec && (ownResult c clock T.spec).2 = T.result.contentHash c.x

/-! ## The simulation -/

/-- The node is where the machine is, with the messages `rest` still to come. -/
structure Sim (c : Ctx W) (n₀ : Node W) (T : TaskMessages) (rest : List TaskMessage) (n : Node W)
    (p : Progress) : Prop where
  registry : n.peerRegistry = n₀.peerRegistry
  cap : 0 < n.quorums.cap
  bucket : TaskMessage.result ∈ rest →
    n.rateLimit T.result.executor = n₀.rateLimit T.result.executor
  task : n.shared.tasks.contains (T.spec.contentHash c.x) = p.task
  result : n.shared.results.contains (T.result.contentHash c.x) = p.opened
  pending : TaskMessage.spec ∈ rest → p.task = false ∧ p.opened = false
  shut : p.opened = false →
    n.quorums.peek (T.result.contentHash c.x) = none ∧ p.counted = []
  opened : p.opened = true → ∃ oq, n.quorums.peek (T.result.contentHash c.x) = some oq ∧
    oq.quorum.resultHash = T.result.contentHash c.x ∧
    oq.quorum.votes.map (·.verification) = p.counted
  waiting : ∀ v, TaskMessage.vote v ∈ rest → v.verifier ∉ p.counted.map (·.verifier)

theorem Sim.tail {c : Ctx W} {n₀ n : Node W} {T : TaskMessages} {m : TaskMessage}
    {rest : List TaskMessage} {p : Progress} (h : Sim c n₀ T (m :: rest) n p) :
    Sim c n₀ T rest n p :=
  { h with
    bucket := fun hr => h.bucket (List.mem_cons_of_mem m hr)
    pending := fun hs => h.pending (List.mem_cons_of_mem m hs)
    waiting := fun v hv => h.waiting v (List.mem_cons_of_mem m hv) }

theorem countedVotes_of_sim {c : Ctx W} {n₀ n : Node W} {T : TaskMessages}
    {rest : List TaskMessage} {p : Progress} (h : Sim c n₀ T rest n p) :
    countedVotes n (T.result.contentHash c.x) = p.counted := by
  unfold countedVotes
  cases ho : p.opened with
  | false =>
    obtain ⟨hpeek, hc⟩ := h.shut ho
    rw [hpeek, hc]
  | true =>
    obtain ⟨oq, hpeek, -, hc⟩ := h.opened ho
    rw [hpeek]
    exact hc

section Node

variable [WeightArith W] {c : Ctx W} {n₀ n : Node W} {T : TaskMessages}
  {rest : List TaskMessage} {p : Progress}

/-- What the node does with the spec. -/
theorem step_spec (hd : Deliverable c n T) (d : Delivery) (hm : d.message = .spec) :
    step c n (T.deliver d) =
      let n₁ := { n with shared := n.shared.recordSpec c.x T.spec (Clock.unixI64 d.clock) }
      if elected c n T.spec then executeSpec c d.clock n₁ T.spec else n₁ := by
  obtain ⟨key, hkey, hsig⟩ := hd.specSigned
  simp only [TaskMessages.deliver, hm, step, handleTasksMessage, admitSpec, hd.specDecodes, hkey,
    hsig]
  rfl

/-- The store after the node has executed the spec itself: its own result is in. -/
theorem executeSpec_store (d : Clock) {spec : JobSpec}
    (ht : n.shared.tasks.contains (spec.contentHash c.x) = true) (rh : ContentHash) :
    (executeSpec c d n spec).shared.tasks = n.shared.tasks ∧
      ((executeSpec c d n spec).shared.results.contains rh = true ↔
        n.shared.results.contains rh = true ∨ (ownResult c d spec).2 = rh) := by
  have hspec : (ownResult c d spec).1.specHash = spec.contentHash c.x := rfl
  have hok : ∃ s', n.shared.recordResult c.x (ownResult c d spec).1 (Clock.unixI64 d) = .ok s' :=
    SharedState.recordResult_isOk.mpr (Or.inr (by rw [hspec, ht]))
  obtain ⟨s', hs'⟩ := hok
  obtain ⟨hr, htasks, -⟩ := SharedState.recordResult_ok hs'
  have hshared : (executeSpec c d n spec).shared = s' := by
    simp only [executeSpec, hs', SharedState.orKeep]
  rw [hshared]
  refine ⟨htasks, ?_⟩
  rw [hr, Keyed.contains_insertOrIgnore]
  rfl

/-- The node's own result is the delivered one: executing the spec opens its quorum. -/
theorem sim_executeSpec_own (hsim : Sim c n₀ T (.spec :: rest) n p)
    (hnd : TaskMessage.spec ∉ rest) (clock : Clock) {s' : SharedState}
    (htask : s'.tasks.contains (T.spec.contentHash c.x) = true)
    (hrh : (ownResult c clock T.spec).2 = T.result.contentHash c.x) :
    Sim c n₀ T rest (executeSpec c clock { n with shared := s' } T.spec) ⟨true, true, []⟩ := by
  obtain ⟨htasks, hres⟩ := executeSpec_store (n := { n with shared := s' }) clock htask
    (T.result.contentHash c.x)
  refine { hsim.tail with
    task := by rw [htasks]; exact htask
    result := hres.mpr (Or.inr hrh)
    pending := fun h => absurd h hnd
    shut := nofun
    opened := fun _ => ⟨freshQuorum clock (T.spec.contentHash c.x) (ownResult c clock T.spec).2,
      ?_, hrh, rfl⟩
    waiting := fun v _ => List.not_mem_nil }
  rw [← hrh]
  exact LruCache.peek_put_self hsim.cap _ _

/-- The node's own result is another one: the delivered result stays unseen. -/
theorem sim_executeSpec_other (hsim : Sim c n₀ T (.spec :: rest) n p)
    (hnd : TaskMessage.spec ∉ rest) (clock : Clock) {s' : SharedState}
    (htask : s'.tasks.contains (T.spec.contentHash c.x) = true)
    (hresult : s'.results.contains (T.result.contentHash c.x) = false)
    (hrh : (ownResult c clock T.spec).2 ≠ T.result.contentHash c.x) :
    Sim c n₀ T rest (executeSpec c clock { n with shared := s' } T.spec) { p with task := true } := by
  obtain ⟨htasks, hres⟩ := executeSpec_store (n := { n with shared := s' }) clock htask
    (T.result.contentHash c.x)
  have hopened : p.opened = false := (hsim.pending List.mem_cons_self).2
  obtain ⟨hpeek, hcounted⟩ := hsim.shut hopened
  have hres' : (executeSpec c clock { n with shared := s' } T.spec).shared.results.contains
      (T.result.contentHash c.x) = false := by
    rw [← Bool.not_eq_true, hres]
    rintro (h | h)
    · exact absurd (hresult.symm.trans h) (by decide)
    · exact hrh h
  have hpeek' : (executeSpec c clock { n with shared := s' } T.spec).quorums.peek
      (T.result.contentHash c.x) = none :=
    LruCache.peek_put_eq_none hpeek (fun h => hrh h.symm) _
  exact { hsim.tail with
    task := by rw [htasks]; exact htask
    result := hres'.trans hopened.symm
    pending := fun h => absurd h hnd
    shut := fun _ => ⟨hpeek', hcounted⟩
    opened := fun h => absurd (hopened.symm.trans h) (by decide) }

theorem sim_spec (hsim : Sim c n₀ T (.spec :: rest) n p) (hnd : TaskMessage.spec ∉ rest)
    (hd : Deliverable c n₀ T) (d : Delivery) (hm : d.message = .spec) :
    Sim c n₀ T rest (step c n (T.deliver d))
      (p.advance (executesOwn c n₀ T d.clock) .spec) := by
  have hresult : n.shared.results.contains (T.result.contentHash c.x) = false :=
    hsim.result.trans (hsim.pending List.mem_cons_self).2
  have helected : elected c n T.spec = elected c n₀ T.spec := by
    simp only [elected, hsim.registry]
  have htask : (n.shared.recordSpec c.x T.spec (Clock.unixI64 d.clock)).tasks.contains
      (T.spec.contentHash c.x) = true :=
    Keyed.contains_insertOrIgnore.mpr (Or.inr rfl)
  rw [step_spec (hd.congr hsim.registry) d hm, helected]
  cases he : elected c n₀ T.spec with
  | false =>
    -- the spec is only stored
    have hown : executesOwn c n₀ T d.clock = false := by simp [executesOwn, he]
    rw [hown]
    exact { hsim.tail with task := htask, pending := fun h => absurd h hnd }
  | true =>
    by_cases hrh : (ownResult c d.clock T.spec).2 = T.result.contentHash c.x
    · have hown : executesOwn c n₀ T d.clock = true := by simp [executesOwn, he, hrh]
      rw [hown]
      exact sim_executeSpec_own hsim hnd d.clock htask hrh
    · have hown : executesOwn c n₀ T d.clock = false := by simp [executesOwn, he, hrh]
      rw [hown]
      exact sim_executeSpec_other hsim hnd d.clock htask hresult hrh

/-- The node once a result of the executor has been charged to its bucket. -/
def chargeResult (n : Node W) (executor : PeerId) (clock : Clock) : Node W :=
  { n with rateLimit := fun q =>
      if q = executor then ((n.rateLimit executor).record (unixNow clock.wall)).2
      else n.rateLimit q }

/-- What the node does with the result: without its task it is dropped. -/
theorem step_result (hd : Deliverable c n T) (d : Delivery) (hm : d.message = .result)
    (hrate : ((n.rateLimit T.result.executor).record (unixNow d.clock.wall)).1 = false) :
    step c n (T.deliver d) =
      match n.shared.recordResult c.x T.result (Clock.unixI64 d.clock) with
      | .error _ => chargeResult n T.result.executor d.clock
      | .ok shared => openQuorum d.clock
          { chargeResult n T.result.executor d.clock with shared } T.result.specHash
          (T.result.contentHash c.x) := by
  obtain ⟨key, hkey, hsig⟩ := hd.resultSigned
  simp only [TaskMessages.deliver, hm, step, handleVerifyMessage, if_true, handleInboundJobResult,
    admitJobResult, hd.resultDecodes, hkey, hsig, hrate, Bool.false_eq_true, if_false]
  cases n.shared.recordResult c.x T.result (Clock.unixI64 d.clock) <;> rfl

/-- The result of an open quorum changes nothing in the machine. -/
theorem sim_result_again (hsim : Sim c n₀ T (.result :: rest) n p)
    (hnd : TaskMessage.result ∉ rest) (ho : p.opened = true) (clock : Clock) {s' : SharedState}
    (htask : s'.tasks.contains (T.spec.contentHash c.x) = p.task)
    (hresult : s'.results.contains (T.result.contentHash c.x) = true) :
    Sim c n₀ T rest (openQuorum clock
      { chargeResult n T.result.executor clock with shared := s' } T.result.specHash
      (T.result.contentHash c.x)) p := by
  set n₁ := { chargeResult n T.result.executor clock with shared := s' }
  have hpeek := peek_openQuorum clock (n := n₁) hsim.cap T.result.specHash (T.result.contentHash c.x)
  have hcap := cap_openQuorum clock n₁ T.result.specHash (T.result.contentHash c.x)
  obtain ⟨oq, hold, hrh, hcounted⟩ := hsim.opened ho
  exact { hsim.tail with
    cap := hcap ▸ hsim.cap
    bucket := fun h => absurd h hnd
    task := htask
    result := hresult.trans ho.symm
    shut := fun h => absurd (ho.symm.trans h) (by decide)
    opened := fun _ => ⟨oq, by rw [hpeek]; simp [n₁, chargeResult, hold], hrh, hcounted⟩ }

/-- The result of a known task opens its quorum. -/
theorem sim_result_opens (hsim : Sim c n₀ T (.result :: rest) n p)
    (hnd : TaskMessage.result ∉ rest) (ho : p.opened = false) (ht : p.task = true) (clock : Clock)
    {s' : SharedState} (htask : s'.tasks.contains (T.spec.contentHash c.x) = p.task)
    (hresult : s'.results.contains (T.result.contentHash c.x) = true) :
    Sim c n₀ T rest (openQuorum clock
      { chargeResult n T.result.executor clock with shared := s' } T.result.specHash
      (T.result.contentHash c.x)) ⟨true, true, []⟩ := by
  set n₁ := { chargeResult n T.result.executor clock with shared := s' }
  have hpeek := peek_openQuorum clock (n := n₁) hsim.cap T.result.specHash (T.result.contentHash c.x)
  have hcap := cap_openQuorum clock n₁ T.result.specHash (T.result.contentHash c.x)
  obtain ⟨hnone, -⟩ := hsim.shut ho
  exact { hsim.tail with
    cap := hcap ▸ hsim.cap
    bucket := fun h => absurd h hnd
    task := htask.trans ht
    result := hresult
    pending := fun h => absurd ((hsim.tail.pending h).1.symm.trans ht) (by decide)
    shut := nofun
    opened := fun _ => ⟨freshQuorum clock T.result.specHash (T.result.contentHash c.x),
      by rw [hpeek]; simp [n₁, chargeResult, hnone], rfl, rfl⟩
    waiting := fun v _ => List.not_mem_nil }

theorem sim_result (hsim : Sim c n₀ T (.result :: rest) n p) (hnd : TaskMessage.result ∉ rest)
    (hd : Deliverable c n₀ T) (own : Bool) (d : Delivery) (hm : d.message = .result)
    (hrate : ((n₀.rateLimit T.result.executor).record (unixNow d.clock.wall)).1 = false) :
    Sim c n₀ T rest (step c n (T.deliver d)) (p.advance own .result) := by
  rw [← hsim.bucket List.mem_cons_self] at hrate
  rw [step_result (hd.congr hsim.registry) d hm hrate]
  have hok : (∃ s', n.shared.recordResult c.x T.result (Clock.unixI64 d.clock) = .ok s') ↔
      p.opened = true ∨ p.task = true := by
    rw [SharedState.recordResult_isOk, hsim.result, hd.answers, hsim.task]
  cases hrec : n.shared.recordResult c.x T.result (Clock.unixI64 d.clock) with
  | error e =>
    have hneither : ¬ (p.opened = true ∨ p.task = true) := by
      rw [← hok, hrec]
      rintro ⟨s', h⟩
      cases h
    have hsame : p.advance own .result = p := by
      simp only [not_or, Bool.not_eq_true] at hneither
      simp [Progress.advance, hneither.1, hneither.2]
    rw [hsame]
    exact { hsim.tail with bucket := fun h => absurd h hnd }
  | ok s' =>
    obtain ⟨hres, htasks, -⟩ := SharedState.recordResult_ok hrec
    have htask : s'.tasks.contains (T.spec.contentHash c.x) = p.task := by
      rw [htasks]
      exact hsim.task
    have hresult : s'.results.contains (T.result.contentHash c.x) = true := by
      rw [hres]
      exact Keyed.contains_insertOrIgnore.mpr (Or.inr rfl)
    cases ho : p.opened with
    | true =>
      have hsame : p.advance own .result = p := by simp [Progress.advance, ho]
      rw [hsame]
      exact sim_result_again hsim hnd ho d.clock htask hresult
    | false =>
      have htask' : p.task = true := (hok.mp ⟨s', hrec⟩).resolve_left (by simp [ho])
      have hopen : p.advance own .result = ⟨true, true, []⟩ := by
        simp [Progress.advance, ho, htask']
      rw [hopen]
      exact sim_result_opens hsim hnd ho htask' d.clock htask hresult

/-- What the node does with a vote: without its result it is dropped. -/
theorem step_vote {v : JobVerification} {key : VerifyingKey} (hd : Deliverable c n T)
    (hv : v ∈ T.votes) (hkey : n.peerRegistry.verifyingKey v.verifier = some key)
    (hsig : v.verifySignature c.x key = .ok ()) (d : Delivery) (hm : d.message = .vote v) :
    step c n (T.deliver d) =
      match n.shared.recordVerification c.x v (Clock.unixI64 d.clock) with
      | .error _ => n
      | .ok shared => slotVote c.x { n with shared } v key := by
  simp only [TaskMessages.deliver, hm, step, handleVerifyMessage,
    show ¬ tagJobVerification = tagJobResult by decide, if_true, if_false,
    handleInboundVerification, admitVerification, hd.votesDecode v hv, hkey, hsig]
  cases n.shared.recordVerification c.x v (Clock.unixI64 d.clock) <;> rfl

omit [WeightArith W] in
/-- A vote of a new verifier is stored in its open quorum. -/
theorem peek_slotVote {v : JobVerification} {key : VerifyingKey} {rh : ContentHash}
    {oq : OpenQuorum W} (hpeek : n.quorums.peek rh = some oq) (hrh : v.resultHash = rh)
    (hfiled : oq.quorum.resultHash = rh) (hsig : v.verifySignature c.x key = .ok ())
    (hnew : oq.quorum.byVerifier.contains v.verifier = false) :
    (slotVote c.x n v key).quorums.peek rh = some { oq with
      quorum := oq.quorum.store ⟨v, voteWeight (n.shared.reputationOf v.verifier)⟩ } := by
  have hadd : oq.quorum.addVerification c.x v (voteWeight (n.shared.reputationOf v.verifier)) key =
      (.ok (), oq.quorum.store ⟨v, voteWeight (n.shared.reputationOf v.verifier)⟩) :=
    Quorum.addVerification_ok (hrh.trans hfiled.symm) hsig hnew
  subst hrh
  refine (LruCache.peek_getMut_self hpeek _).trans ?_
  rw [hadd]

omit [WeightArith W] in
/-- A vote before its result leaves the machine where it is. -/
theorem sim_vote_early {v : JobVerification} {key : VerifyingKey}
    (hsim : Sim c n₀ T (.vote v :: rest) n p) (hrh : v.resultHash = T.result.contentHash c.x)
    (ho : p.opened = false) {s' : SharedState}
    (htask : s'.tasks.contains (T.spec.contentHash c.x) = p.task)
    (hresult : s'.results.contains (T.result.contentHash c.x) = p.opened) :
    Sim c n₀ T rest (slotVote c.x { n with shared := s' } v key) p := by
  have hslot : slotVote c.x { n with shared := s' } v key = { n with shared := s' } := by
    rw [slotVote, LruCache.getMut_of_peek_eq_none (hrh ▸ (hsim.shut ho).1)]
  rw [hslot]
  exact { hsim.tail with task := htask, result := hresult }

omit [WeightArith W] in
/-- A vote on the open result is counted. -/
theorem sim_vote_counted {v : JobVerification} {key : VerifyingKey}
    (hsim : Sim c n₀ T (.vote v :: rest) n p) (hrh : v.resultHash = T.result.contentHash c.x)
    (hsig : v.verifySignature c.x key = .ok ()) (ho : p.opened = true)
    (hothers : ∀ u, TaskMessage.vote u ∈ rest → u.verifier ≠ v.verifier) {s' : SharedState}
    (htask : s'.tasks.contains (T.spec.contentHash c.x) = p.task)
    (hresult : s'.results.contains (T.result.contentHash c.x) = p.opened) :
    Sim c n₀ T rest (slotVote c.x { n with shared := s' } v key)
      { p with counted := p.counted ++ [v] } := by
  obtain ⟨oq, hpeek, hfiled, hcounted⟩ := hsim.opened ho
  have hnew : oq.quorum.byVerifier.contains v.verifier = false := by
    rw [Keyed.contains_eq_false_iff]
    intro sv hsv hver
    refine hsim.waiting v List.mem_cons_self ?_
    rw [← hcounted, ← hver, List.map_map]
    exact List.mem_map_of_mem hsv
  have hpeek' : (slotVote c.x { n with shared := s' } v key).quorums.peek
      (T.result.contentHash c.x) = some { oq with
        quorum := oq.quorum.store ⟨v, voteWeight (s'.reputationOf v.verifier)⟩ } :=
    peek_slotVote hpeek hrh hfiled hsig hnew
  have hcap : (slotVote c.x { n with shared := s' } v key).quorums.cap = n.quorums.cap :=
    LruCache.cap_getMut ..
  refine { hsim.tail with
    cap := hcap ▸ hsim.cap
    task := htask
    result := hresult
    shut := fun h => absurd (ho.symm.trans h) (by decide)
    opened := fun _ => ⟨_, hpeek', hfiled, ?_⟩
    waiting := fun u hu => ?_ }
  · rw [Quorum.votes_store hnew, List.map_append, hcounted]
    rfl
  · rw [List.map_append, List.mem_append]
    rintro (h | h)
    · exact hsim.waiting u (List.mem_cons_of_mem _ hu) h
    · exact hothers u hu (by simpa using h)

theorem sim_vote {v : JobVerification} (hsim : Sim c n₀ T (.vote v :: rest) n p)
    (hnd : TaskMessage.vote v ∉ rest) (hd : Deliverable c n₀ T) (hv : v ∈ T.votes)
    (hrest : ∀ u, TaskMessage.vote u ∈ rest → u ∈ T.votes) (own : Bool) (d : Delivery)
    (hm : d.message = .vote v) :
    Sim c n₀ T rest (step c n (T.deliver d)) (p.advance own (.vote v)) := by
  have hd' := hd.congr hsim.registry
  obtain ⟨key, hkey, hsig⟩ := hd'.votesSigned v hv
  have hrh := hd.about v hv
  have hothers : ∀ u, TaskMessage.vote u ∈ rest → u.verifier ≠ v.verifier := by
    intro u hu h
    have huv := List.inj_on_of_nodup_map hd.distinct (hrest u hu) hv h
    exact hnd (huv ▸ hu)
  have hkept : ∀ s', n.shared.recordVerification c.x v (Clock.unixI64 d.clock) = .ok s' →
      s'.tasks.contains (T.spec.contentHash c.x) = p.task ∧
        s'.results.contains (T.result.contentHash c.x) = p.opened := by
    intro s' hrec
    obtain ⟨-, htasks, hresults, -⟩ := SharedState.recordVerification_ok hrec
    rw [htasks, hresults]
    exact ⟨hsim.task, hsim.result⟩
  rw [step_vote hd' hv hkey hsig d hm]
  cases ho : p.opened with
  | false =>
    have hsame : p.advance own (.vote v) = p := by simp [Progress.advance, ho]
    rw [hsame]
    cases hrec : n.shared.recordVerification c.x v (Clock.unixI64 d.clock) with
    | error e => exact hsim.tail
    | ok s' => exact sim_vote_early hsim hrh ho (hkept s' hrec).1 (hkept s' hrec).2
  | true =>
    have hok : ∃ s', n.shared.recordVerification c.x v (Clock.unixI64 d.clock) = .ok s' :=
      SharedState.recordVerification_isOk.mpr (Or.inr (by rw [hrh, hsim.result, ho]))
    obtain ⟨s', hrec⟩ := hok
    have hcount : p.advance own (.vote v) = { p with counted := p.counted ++ [v] } := by
      simp [Progress.advance, ho]
    rw [hrec, hcount]
    exact sim_vote_counted hsim hrh hsig ho hothers (hkept s' hrec).1 (hkept s' hrec).2

/-- **The node follows the machine** over any list of deliveries without
repetition. -/
theorem sim_run {own : Bool} (hd : Deliverable c n₀ T) {ds : List Delivery}
    (hsim : Sim c n₀ T (ds.map (·.message)) n p) (hnd : (ds.map (·.message)).Nodup)
    (hvotes : ∀ v, TaskMessage.vote v ∈ ds.map (·.message) → v ∈ T.votes)
    (hown : ∀ d ∈ ds, d.message = .spec → executesOwn c n₀ T d.clock = own)
    (hrate : ∀ d ∈ ds, d.message = .result →
      ((n₀.rateLimit T.result.executor).record (unixNow d.clock.wall)).1 = false) :
    Sim c n₀ T [] (run (step c) n (ds.map T.deliver))
      ((ds.map (·.message)).foldl (Progress.advance own) p) := by
  induction ds generalizing n p with
  | nil => exact hsim
  | cons d ds ih =>
    rw [List.map_cons] at hsim hnd hvotes
    obtain ⟨hfresh, hnd'⟩ := List.nodup_cons.mp hnd
    have hstep : Sim c n₀ T (ds.map (·.message)) (step c n (T.deliver d))
        (p.advance own d.message) := by
      cases hm : d.message with
      | spec =>
        rw [hm] at hsim hfresh
        have hsim' := sim_spec hsim hfresh hd d hm
        rwa [hown d List.mem_cons_self hm] at hsim'
      | result =>
        rw [hm] at hsim hfresh
        exact sim_result hsim hfresh hd own d hm (hrate d List.mem_cons_self hm)
      | vote v =>
        rw [hm] at hsim hfresh hvotes
        exact sim_vote hsim hfresh hd (hvotes v List.mem_cons_self)
          (fun u hu => hvotes u (List.mem_cons_of_mem _ hu)) own d hm
    exact ih hstep hnd' (fun v hv => hvotes v (List.mem_cons_of_mem _ hv))
      (fun e he => hown e (List.mem_cons_of_mem _ he))
      (fun e he => hrate e (List.mem_cons_of_mem _ he))

/-! ## Every delivery order -/

omit [WeightArith W] in
theorem sim_start (hcap : 0 < n.quorums.cap) (hu : Unseen c n T) (rest : List TaskMessage) :
    Sim c n T rest n .start where
  registry := rfl
  cap := hcap
  bucket _ := rfl
  task := hu.task
  result := hu.result
  pending _ := ⟨rfl, rfl⟩
  shut _ := ⟨hu.quorum, rfl⟩
  opened := nofun
  waiting _ _ := List.not_mem_nil

/-- The node executes the delivered spec itself, with the delivered result. -/
def ownIn (c : Ctx W) (n : Node W) (T : TaskMessages) (ds : List Delivery) : Bool :=
  ds.any fun d => d.message = .spec && executesOwn c n T d.clock

omit [WeightArith W] in
theorem executesOwn_eq_ownIn {ds : List Delivery} (hnd : (ds.map (·.message)).Nodup)
    {d : Delivery} (hd : d ∈ ds) (hm : d.message = .spec) :
    executesOwn c n T d.clock = ownIn c n T ds := by
  rw [Bool.eq_iff_iff, ownIn, List.any_eq_true]
  constructor
  · intro h
    exact ⟨d, hd, by simp [hm, h]⟩
  · rintro ⟨e, he, h⟩
    simp only [Bool.and_eq_true, decide_eq_true_eq] at h
    have hde := List.inj_on_of_nodup_map hnd he hd (h.1.trans hm.symm)
    rw [← hde]
    exact h.2

/-- **Delivery orders.**  At every reachable node that has not heard of the task,
a delivery of its messages, each once, counts all the votes exactly when the
order is one in which no message overtakes the one it depends on. -/
theorem counted_all_iff (hn : Reachable c n) (hd : Deliverable c n T) (hu : Unseen c n T)
    (ds : List Delivery)
    (horder : (ds.map (·.message)).Perm (.spec :: .result :: T.votes.map .vote))
    (hrate : ∀ d ∈ ds, d.message = .result →
      ((n.rateLimit T.result.executor).record (unixNow d.clock.wall)).1 = false) :
    (countedVotes (run (step c) n (ds.map T.deliver)) (T.result.contentHash c.x)).Perm T.votes ↔
      InOrder (ownIn c n T ds) T.votes (ds.map (·.message)) := by
  have hcap : 0 < n.quorums.cap := by
    rw [cap_of_reachable hn]
    decide
  have hvnd : T.votes.Nodup := hd.distinct.of_map _
  have hmap : (T.votes.map TaskMessage.vote).Nodup := hvnd.map fun _ _ h => by injection h
  have hnd : (ds.map (·.message)).Nodup := by
    rw [horder.nodup_iff]
    simp [hmap]
  have hvotes : ∀ v, TaskMessage.vote v ∈ ds.map (·.message) → v ∈ T.votes := by
    intro v hv
    simpa using horder.mem_iff.mp hv
  have hsim := sim_run hd (sim_start hcap hu _) hnd hvotes
    (fun d hmem hm => executesOwn_eq_ownIn hnd hmem hm) hrate
  rw [countedVotes_of_sim hsim]
  exact counted_perm_iff (ownIn c n T ds) horder hvnd

end Node

/-! ## Two orders of the small network -/

section Small

def overtakenExternals : Externals ℚ := .small false [1, 2, 11, 12] [11, 12] []

/-- The node once it has heard the advertisements. -/
def informedNode : Node ℚ :=
  run (step (smallCtx overtakenExternals)) (smallStart overtakenExternals)
    ([1, 2, 11, 12].map fun n => atSecs 0 (hearAd n))

/-- The small task with the votes of peers 11 and 12. -/
def smallMessages : TaskMessages where
  spec := smallSpec false
  specBytes := specBytes false
  result := smallResult false
  resultBytes := resultBytes false
  votes := [smallVote false true 11, smallVote false true 12]
  voteBytes v := voteBytes true (v.verifier.toBytes.headD 0)

/-- The messages one second apart, in the given order. -/
def inTurn (l : List TaskMessage) : List Delivery :=
  l.zipIdx.map fun m => ⟨⟨fromSecs (m.2 + 1), fromSecs (m.2 + 1)⟩, none, m.1⟩

def countedInTurn (l : List TaskMessage) : List JobVerification :=
  countedVotes (run (step (smallCtx overtakenExternals)) informedNode
    ((inTurn l).map smallMessages.deliver)) (smallResultHash false)

/-- A vote that overtakes the result is lost for good, although every message is
delivered once in both orders. -/
theorem overtaking_vote_lost :
    countedInTurn [.spec, .result, .vote (smallVote false true 11),
        .vote (smallVote false true 12)] =
      [smallVote false true 11, smallVote false true 12] ∧
    countedInTurn [.spec, .vote (smallVote false true 11), .result,
        .vote (smallVote false true 12)] = [smallVote false true 12] := by
  decide +kernel

theorem smallMessages_deliverable :
    Deliverable (smallCtx overtakenExternals) informedNode smallMessages where
  specDecodes := by decide +kernel
  specSigned := ⟨(keyOf 2).verifyingKey, by decide +kernel, by rfl⟩
  resultDecodes := by decide +kernel
  resultSigned := ⟨(keyOf 1).verifyingKey, by decide +kernel, by rfl⟩
  answers := by decide +kernel
  votesDecode := by decide +kernel
  votesSigned := by
    intro v hv
    rcases List.mem_cons.mp hv with rfl | hv
    · exact ⟨(keyOf 11).verifyingKey, by decide +kernel, by rfl⟩
    · rw [List.mem_singleton.mp hv]
      exact ⟨(keyOf 12).verifyingKey, by decide +kernel, by rfl⟩
  about := by decide +kernel
  distinct := by decide +kernel

/-- In order, both votes are counted. -/
theorem in_order_counted :
    (countedInTurn [.spec, .result, .vote (smallVote false true 11),
      .vote (smallVote false true 12)]).Perm [smallVote false true 11, smallVote false true 12] :=
  (counted_all_iff ⟨⟨0, 0⟩, [], .empty, _, rfl⟩ smallMessages_deliverable
    ⟨by decide +kernel, by decide +kernel, by decide +kernel⟩
    (inTurn [.spec, .result, .vote (smallVote false true 11), .vote (smallVote false true 12)])
    (by decide +kernel) (by decide +kernel)).mpr
      (Or.inr (Or.inr ⟨by decide +kernel, by decide +kernel⟩))

end Small

end Parseh.Miner
