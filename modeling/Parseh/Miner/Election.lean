import Parseh.Core.PeerRegistry
import Parseh.Wire.Table

/-!
# Executor self-selection (`miner`, `should_execute`)

Each node decides alone whether it executes a spec: it lists the eligible peers
of its registry without the submitter, adds itself, and takes the smallest
`PeerId`.

* `shouldExecute_iff`: a node elects itself exactly when it is not the submitter
  and no candidate is smaller;
* `executorUnique_iff`: over one registry, two nodes agree on at most one
  executor, and only on one whose advertisement qualifies, exactly when the
  registry itself lists a smaller candidate than one of them, or one is the
  submitter.  A node that adds itself is not on the other's list.
-/

namespace Parseh.Miner

open Parseh.Lib Parseh.Wire Parseh.Core

/-- The peers the registry offers for the spec, without its submitter. -/
def candidates (spec : JobSpec) (registry : PeerRegistry) : List PeerId :=
  ((registry.readyPeersForService spec.service).map (·.peerId)).filter (· ≠ spec.submitter)

/-- The list a node chooses from: the candidates and, where missing, itself. -/
def eligible (localPeer : PeerId) (spec : JobSpec) (registry : PeerRegistry) : List PeerId :=
  if !(candidates spec registry).contains localPeer && localPeer ≠ spec.submitter then
    candidates spec registry ++ [localPeer]
  else candidates spec registry

/-- `should_execute`. -/
def shouldExecute (localPeer : PeerId) (spec : JobSpec) (registry : PeerRegistry) : Bool :=
  match (sortByKey PeerId.key (eligible localPeer spec registry)).head? with
  | some chosen => chosen = localPeer
  | none => false

variable {localPeer p q : PeerId} {spec : JobSpec} {registry : PeerRegistry}

theorem mem_eligible {a : PeerId} :
    a ∈ eligible localPeer spec registry ↔
      a ∈ candidates spec registry ∨ (a = localPeer ∧ localPeer ≠ spec.submitter) := by
  unfold eligible
  split
  · next h =>
    have hne : localPeer ≠ spec.submitter := by simpa using (Bool.and_eq_true_iff.mp h).2
    simp [hne]
  · next h =>
    constructor
    · exact Or.inl
    · rintro (ha | ⟨rfl, hne⟩)
      · exact ha
      · -- not appended although it may be: it is on the list already
        by_contra hmem
        exact h (by simp [hmem, hne])

theorem submitter_not_mem_candidates : spec.submitter ∉ candidates spec registry := by
  simp [candidates]

/-- A node elects itself exactly when it is not the submitter and nobody listed
is smaller. -/
theorem shouldExecute_iff :
    shouldExecute localPeer spec registry = true ↔
      localPeer ≠ spec.submitter ∧
        ∀ c ∈ candidates spec registry, localPeer.key ≤ c.key := by
  unfold shouldExecute
  cases hh : (sortByKey PeerId.key (eligible localPeer spec registry)).head? with
  | none =>
    have hnil : eligible localPeer spec registry = [] := by
      have := List.head?_eq_none_iff.mp hh
      exact (this ▸ sortByKey_perm_self PeerId.key (eligible localPeer spec registry)).nil_eq.symm
    simp only [Bool.false_eq_true, false_iff]
    rintro ⟨hne, -⟩
    have : localPeer ∈ eligible localPeer spec registry := mem_eligible.mpr (Or.inr ⟨rfl, hne⟩)
    rw [hnil] at this
    cases this
  | some chosen =>
    obtain ⟨hmem, hmin⟩ := head?_sortByKey hh
    simp only [decide_eq_true_eq]
    constructor
    · rintro rfl
      refine ⟨?_, fun c hc => hmin c (mem_eligible.mpr (Or.inl hc))⟩
      rintro rfl
      rcases mem_eligible.mp hmem with h | ⟨-, h⟩
      · exact submitter_not_mem_candidates h
      · exact h rfl
    · rintro ⟨hne, hle⟩
      apply PeerId.key_injective
      apply le_antisymm
      · exact hmin localPeer (mem_eligible.mpr (Or.inr ⟨rfl, hne⟩))
      · rcases mem_eligible.mp hmem with h | ⟨h, -⟩
        · exact hle chosen h
        · rw [h]

/-! ## Two nodes over one registry -/

/-- The registry holds no advertisement of the peer, or one that offers the
service in an eligible state. -/
def AdQualifies (registry : PeerRegistry) (spec : JobSpec) (p : PeerId) : Prop :=
  ∀ ad ∈ registry.ads.rows, ad.peerId = p →
    spec.service ∈ ad.services ∧ ad.readiness.isEligible = true

/-- At most one of the two is elected, and whoever is elected is not the
submitter and qualifies. -/
structure ExecutorUnique (registry : PeerRegistry) (spec : JobSpec) (p q : PeerId) : Prop where
  atMostOne : ¬ (shouldExecute p spec registry = true ∧ shouldExecute q spec registry = true)
  sound : ∀ r, r = p ∨ r = q → shouldExecute r spec registry = true →
    r ≠ spec.submitter ∧ AdQualifies registry spec r

/-- The peer is out of the race whatever the others do: it is the submitter, or
a smaller candidate is listed. -/
def Outranked (registry : PeerRegistry) (spec : JobSpec) (p : PeerId) : Prop :=
  p = spec.submitter ∨ ∃ c ∈ candidates spec registry, c.key < p.key

theorem shouldExecute_iff_not_outranked :
    shouldExecute p spec registry = true ↔ ¬ Outranked registry spec p := by
  simp only [shouldExecute_iff, Outranked, not_or, not_exists, not_and, not_lt, Ne]

/-- One of the two is out of the race, and each qualifies unless it is. -/
theorem executorUnique_of_outranked
    (hone : Outranked registry spec p ∨ Outranked registry spec q)
    (hp : Outranked registry spec p ∨ AdQualifies registry spec p)
    (hq : Outranked registry spec q ∨ AdQualifies registry spec q) :
    ExecutorUnique registry spec p q := by
  constructor
  · rintro ⟨ep, eq⟩
    rcases hone with h | h
    · exact shouldExecute_iff_not_outranked.mp ep h
    · exact shouldExecute_iff_not_outranked.mp eq h
  · intro r hr he
    refine ⟨(shouldExecute_iff.mp he).1, ?_⟩
    have hno := shouldExecute_iff_not_outranked.mp he
    rcases hr with rfl | rfl
    · exact hp.resolve_left hno
    · exact hq.resolve_left hno

/-- **When the executor is unique.**  For every registry, spec and two peers. -/
theorem executorUnique_iff (registry : PeerRegistry) (spec : JobSpec) (p q : PeerId) :
    ExecutorUnique registry spec p q ↔
      (Outranked registry spec p ∨ Outranked registry spec q) ∧
      (Outranked registry spec p ∨ AdQualifies registry spec p) ∧
      (Outranked registry spec q ∨ AdQualifies registry spec q) := by
  constructor
  · intro h
    refine ⟨?_, ?_, ?_⟩
    · by_contra hc
      obtain ⟨hp, hq⟩ := not_or.mp hc
      exact h.atMostOne ⟨shouldExecute_iff_not_outranked.mpr hp,
        shouldExecute_iff_not_outranked.mpr hq⟩
    · by_contra hc
      obtain ⟨hp, hno⟩ := not_or.mp hc
      exact hno (h.sound p (Or.inl rfl) (shouldExecute_iff_not_outranked.mpr hp)).2
    · by_contra hc
      obtain ⟨hq, hno⟩ := not_or.mp hc
      exact hno (h.sound q (Or.inr rfl) (shouldExecute_iff_not_outranked.mpr hq)).2
  · rintro ⟨hone, hp, hq⟩
    exact executorUnique_of_outranked hone hp hq

/-- The candidates are the peers with a qualifying advertisement and a known key. -/
theorem adQualifies_of_mem_candidates (h : p ∈ candidates spec registry) :
    AdQualifies registry spec p := by
  obtain ⟨id, hid, rfl⟩ := List.mem_map.mp (List.mem_filter.mp h).1
  obtain ⟨ad, had, hservice, hready, hfind⟩ := PeerRegistry.mem_readyPeersForService.mp hid
  have hkey : id.peerId = ad.peerId := (Keyed.find?_eq_some_iff.mp hfind).2
  intro ad' had' hp
  have hsame := registry.ads.eq_of_key_eq had' had (hp.trans hkey)
  rw [hsame]
  exact ⟨hservice, hready⟩

/-- Two distinct nodes that both stand on the list elect at most one executor:
the defect needs a node that is missing there. -/
theorem executorUnique_of_listed (hp : p ∈ candidates spec registry)
    (hq : q ∈ candidates spec registry) (hne : p ≠ q) : ExecutorUnique registry spec p q := by
  refine executorUnique_of_outranked ?_ (Or.inr (adQualifies_of_mem_candidates hp))
    (Or.inr (adQualifies_of_mem_candidates hq))
  rcases lt_trichotomy p.key q.key with h | h | h
  · exact Or.inr (Or.inr ⟨p, hp, h⟩)
  · exact absurd (PeerId.key_injective h) hne
  · exact Or.inl (Or.inr ⟨q, hq, h⟩)

/-- An inference spec of `peerOf 9`. -/
def inferenceSpec : JobSpec where
  wireVersion := wireVersion
  kind := .inference
  inputs := { promptText := none, seed := some 1, maxTokens := none, contentRefs := [] }
  service := .inference
  sensitive := false
  submittedAt := 0
  submitter := peerOf 9
  signature := []

/-- Over the empty registry both of two nodes elect themselves. -/
theorem not_executorUnique_empty :
    peerOf 1 ≠ peerOf 2 ∧ ¬ ExecutorUnique .new inferenceSpec (peerOf 1) (peerOf 2) :=
  ⟨by decide, fun h => h.atMostOne ⟨by decide, by decide⟩⟩

end Parseh.Miner
