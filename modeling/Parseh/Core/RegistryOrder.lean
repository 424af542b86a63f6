import Mathlib.Data.List.Induction
import Mathlib.Data.Finset.Max
import Parseh.Core.PeerRegistry
import Parseh.Lib.Run
import Parseh.Wire.Table

/-!
# Advertisements in other orders

Advertisements are flooded, so two nodes hear the same ones in different orders
and an old one may arrive last.  `upsert` writes twice by two rules: the
advertisement overwrites the one before, and the identity keeps the greater
`last_seen` but takes the readiness and the addresses of the arrival.

* `ads_heard` and `identity_heard` say what a run of deliveries leaves of one
  peer: its last arrival, and an identity that mixes the last arrival with the
  greatest time;
* `newest_kept_iff`: two orders both end in the newest advertisement exactly when
  it is the last to arrive in both.
-/

namespace Parseh.Core

open Parseh.Lib Parseh.Wire

namespace PeerRegistry

variable {W : Type}

/-- The registry after an advertisement was heard. -/
def hear (x : Externals W) (reg : PeerRegistry) (ad : CapabilityAdvertisement) : PeerRegistry :=
  (reg.upsert x ad).2

/-- The last advertisement of `p` to arrive. -/
def lastOf (p : PeerId) (l : List CapabilityAdvertisement) : Option CapabilityAdvertisement :=
  (l.filter fun ad => ad.peerId = p).getLast?

theorem lastOf_append (p : PeerId) (l : List CapabilityAdvertisement)
    (ad : CapabilityAdvertisement) :
    lastOf p (l ++ [ad]) = if ad.peerId = p then some ad else lastOf p l := by
  unfold lastOf
  split <;> simp_all

theorem mem_of_lastOf {p : PeerId} {l : List CapabilityAdvertisement}
    {ad : CapabilityAdvertisement} (h : lastOf p l = some ad) : ad ∈ l ∧ ad.peerId = p := by
  have hmem := List.mem_of_getLast? h
  simpa using hmem

theorem lastOf_isSome {p : PeerId} {l : List CapabilityAdvertisement}
    {ad : CapabilityAdvertisement} (hmem : ad ∈ l) (hp : ad.peerId = p) :
    ∃ last, lastOf p l = some last := by
  have hne : l.filter (fun ad => ad.peerId = p) ≠ [] :=
    List.ne_nil_of_mem (List.mem_filter.mpr ⟨hmem, by simpa using hp⟩)
  exact ⟨_, List.getLast?_eq_some_getLast hne⟩

/-! ## One delivery -/

theorem ads_hear (x : Externals W) (reg : PeerRegistry) (ad : CapabilityAdvertisement)
    (p : PeerId) :
    (reg.hear x ad).ads.find? p = if ad.peerId = p then some ad else reg.ads.find? p := by
  unfold hear upsert
  cases ad.verifyingKey x <;> exact Keyed.find?_upsert _ ad p

theorem identities_hear {x : Externals W} {ad : CapabilityAdvertisement} {vk : VerifyingKey}
    (hk : ad.verifyingKey x = some vk) (reg : PeerRegistry) :
    (reg.hear x ad).identities.find? ad.peerId = some (reg.mergedIdentity (identityOf ad vk)) := by
  simp only [hear, upsert, hk, recordIdentity]
  rw [Keyed.find?_upsert, mergedIdentity_peerId]
  exact if_pos rfl

theorem identities_hear_of_ne {x : Externals W} {ad : CapabilityAdvertisement} {p : PeerId}
    (hp : ad.peerId ≠ p) (reg : PeerRegistry) :
    (reg.hear x ad).identities.find? p = reg.identities.find? p := by
  unfold hear upsert
  cases hk : ad.verifyingKey x with
  | none => rfl
  | some vk =>
    simp only [recordIdentity]
    rw [Keyed.find?_upsert, mergedIdentity_peerId]
    exact if_neg hp

/-! ## A run of deliveries -/

/-- The last arrival of a peer is its advertisement. -/
theorem ads_heard (x : Externals W) (reg : PeerRegistry) (p : PeerId)
    (l : List CapabilityAdvertisement) :
    (run (hear x) reg l).ads.find? p = (lastOf p l).or (reg.ads.find? p) := by
  induction l using List.reverseRecOn with
  | nil => rfl
  | append_singleton l ad ih =>
    rw [run_append, run_cons, run_nil, ads_hear, ih, lastOf_append]
    split <;> rfl

/-- The identity of a peer with the key `vk` whose last arrival is `ad`, after the
deliveries `l`. -/
structure HeardAs (p : PeerId) (vk : VerifyingKey) (l : List CapabilityAdvertisement)
    (ad : CapabilityAdvertisement) (id : PeerIdentity) : Prop where
  verifyingKey : id.verifyingKey = vk
  readiness : id.readiness = ad.readiness
  reachableAddrs : id.reachableAddrs = ad.reachableAddrs
  upper : ∀ ad' ∈ l, ad'.peerId = p → ad'.signedAt ≤ id.lastSeen
  attained : ∃ ad' ∈ l, ad'.peerId = p ∧ ad'.signedAt = id.lastSeen

/-- Another advertisement of the peer: its own readiness and addresses, the
greater of the two times. -/
theorem heardAs_merged {reg : PeerRegistry} {p : PeerId} {vk : VerifyingKey}
    {l : List CapabilityAdvertisement} {last ad : CapabilityAdvertisement} {id : PeerIdentity}
    (hid : reg.identities.find? p = some id) (h : HeardAs p vk l last id) (hp : ad.peerId = p) :
    HeardAs p vk (l ++ [ad]) ad (reg.mergedIdentity (identityOf ad vk)) := by
  have hmerge : reg.mergedIdentity (identityOf ad vk) =
      { identityOf ad vk with firstSeen := id.firstSeen,
                              lastSeen := max ad.signedAt id.lastSeen } := by
    have hpeer : (identityOf ad vk).peerId = p := hp
    have hsame : ¬ id.verifyingKey.asBytes ≠ (identityOf ad vk).verifyingKey.asBytes :=
      not_not.mpr (congrArg VerifyingKey.asBytes h.verifyingKey)
    simp only [mergedIdentity, hpeer, hid, if_neg hsame]
    rw [← hpeer]
    rfl
  rw [hmerge]
  refine ⟨rfl, rfl, rfl, ?_, ?_⟩
  · intro ad' hmem hp'
    rcases List.mem_append.mp hmem with hmem | hmem
    · exact UInt64.le_trans (h.upper ad' hmem hp') (le_max_time _ _).2
    · rw [List.mem_singleton.mp hmem]
      exact (le_max_time _ _).1
  · obtain ⟨ad', hmem, hp', ht⟩ := h.attained
    rcases max_time_eq ad.signedAt id.lastSeen with hmax | hmax
    · exact ⟨ad, by simp, hp, hmax.symm⟩
    · exact ⟨ad', by simp [hmem], hp', ht.trans hmax.symm⟩

/-- The first advertisement of a peer. -/
theorem heardAs_first {p : PeerId} {vk : VerifyingKey} {l : List CapabilityAdvertisement}
    {ad : CapabilityAdvertisement} (hp : ad.peerId = p) (hnone : lastOf p l = none) :
    HeardAs p vk (l ++ [ad]) ad (identityOf ad vk) := by
  refine ⟨rfl, rfl, rfl, ?_, ⟨ad, by simp, hp, rfl⟩⟩
  intro ad' hmem hp'
  rcases List.mem_append.mp hmem with hmem | hmem
  · obtain ⟨last, hlast⟩ := lastOf_isSome hmem hp'
    rw [hnone] at hlast
    cases hlast
  · rw [List.mem_singleton.mp hmem]
    exact UInt64.le_refl _

/-- An advertisement of another peer changes nothing. -/
theorem HeardAs.append_other {p : PeerId} {vk : VerifyingKey} {l : List CapabilityAdvertisement}
    {last ad : CapabilityAdvertisement} {id : PeerIdentity} (h : HeardAs p vk l last id)
    (hp : ad.peerId ≠ p) : HeardAs p vk (l ++ [ad]) last id := by
  refine ⟨h.verifyingKey, h.readiness, h.reachableAddrs, ?_, ?_⟩
  · intro ad' hmem hp'
    rcases List.mem_append.mp hmem with hmem | hmem
    · exact h.upper ad' hmem hp'
    · exact absurd (List.mem_singleton.mp hmem ▸ hp') hp
  · obtain ⟨ad', hmem, hp', ht⟩ := h.attained
    exact ⟨ad', by simp [hmem], hp', ht⟩

/-- What a run of deliveries leaves of the identity of a peer that was unknown. -/
theorem identity_heard {x : Externals W} {reg : PeerRegistry} {p : PeerId} {vk : VerifyingKey}
    (hnew : reg.identities.find? p = none) (l : List CapabilityAdvertisement)
    (hkey : ∀ ad ∈ l, ad.peerId = p → ad.verifyingKey x = some vk) :
    (lastOf p l = none ∧ (run (hear x) reg l).identities.find? p = none) ∨
      ∃ ad id, lastOf p l = some ad ∧ (run (hear x) reg l).identities.find? p = some id ∧
        HeardAs p vk l ad id := by
  induction l using List.reverseRecOn with
  | nil => exact Or.inl ⟨rfl, hnew⟩
  | append_singleton l ad ih =>
    have ih := ih fun ad' h => hkey ad' (List.mem_append_left _ h)
    rw [run_append, run_cons, run_nil, lastOf_append]
    by_cases hp : ad.peerId = p
    · have hk := hkey ad (by simp) hp
      rw [if_pos hp]
      refine Or.inr ⟨ad, _, rfl, by rw [← hp]; exact identities_hear hk _, ?_⟩
      rcases ih with ⟨hnone, hid⟩ | ⟨last, id, -, hid, hheard⟩
      · have hpeer : (identityOf ad vk).peerId = p := hp
        have hfirst : (run (hear x) reg l).mergedIdentity (identityOf ad vk) = identityOf ad vk := by
          simp only [mergedIdentity, hpeer, hid]
        rw [hfirst]
        exact heardAs_first hp hnone
      · exact heardAs_merged hid hheard hp
    · rw [if_neg hp, identities_hear_of_ne hp]
      rcases ih with hnone | ⟨last, id, hlast, hid, hheard⟩
      · exact Or.inl hnone
      · exact Or.inr ⟨last, id, hlast, hid, hheard.append_other hp⟩

/-! ## Convergence -/

/-- `l` delivers every advertisement of `ads` at least once and none other of `p`;
those of other peers may come in between. -/
def Delivers (p : PeerId) (ads : Finset CapabilityAdvertisement)
    (l : List CapabilityAdvertisement) : Prop :=
  ∀ ad, ad.peerId = p → (ad ∈ l ↔ ad ∈ ads)

/-- `top` is the advertisement with the greatest `signed_at`. -/
def Newest (ads : Finset CapabilityAdvertisement) (top : CapabilityAdvertisement) : Prop :=
  top ∈ ads ∧ ∀ ad ∈ ads, ad.signedAt ≤ top.signedAt

/-- The registry holds of `p` what its newest advertisement says. -/
structure NewestKept (reg : PeerRegistry) (p : PeerId) (ads : Finset CapabilityAdvertisement) :
    Prop where
  ad : ∀ top, Newest ads top → reg.ads.find? p = some top
  identity : ∀ top, Newest ads top → ∃ id, reg.identities.find? p = some id ∧
    id.lastSeen = top.signedAt ∧ id.readiness = top.readiness ∧
      id.reachableAddrs = top.reachableAddrs

/-- The last advertisement of `p` to arrive is its newest. -/
def EndsWithNewest (p : PeerId) (ads : Finset CapabilityAdvertisement)
    (l : List CapabilityAdvertisement) : Prop :=
  ∀ ad, lastOf p l = some ad → Newest ads ad

theorem exists_newest {ads : Finset CapabilityAdvertisement} (h : ads.Nonempty) :
    ∃ top, Newest ads top := by
  obtain ⟨top, hmem, hmax⟩ := Finset.exists_max_image ads (·.signedAt.toNat) h
  exact ⟨top, hmem, fun ad had => UInt64.le_iff_toNat_le.mpr (hmax ad had)⟩

/-- One order. -/
theorem newestKept_run_iff {x : Externals W} {reg : PeerRegistry} {p : PeerId}
    {vk : VerifyingKey} {ads : Finset CapabilityAdvertisement}
    (hnew : reg.identities.find? p = none)
    (hads : ∀ ad ∈ ads, ad.peerId = p ∧ ad.verifyingKey x = some vk)
    (hdist : ∀ ad ∈ ads, ∀ ad' ∈ ads, ad.signedAt = ad'.signedAt → ad = ad')
    (hne : ads.Nonempty) {l : List CapabilityAdvertisement} (hl : Delivers p ads l) :
    NewestKept (run (hear x) reg l) p ads ↔ EndsWithNewest p ads l := by
  obtain ⟨top, htop⟩ := exists_newest hne
  have hunique : ∀ ad, Newest ads ad → ad = top := fun ad h =>
    hdist ad h.1 top htop.1 (UInt64.le_antisymm (htop.2 ad h.1) (h.2 top htop.1))
  obtain ⟨last, hlast⟩ := lastOf_isSome ((hl top (hads top htop.1).1).mpr htop.1)
    (hads top htop.1).1
  constructor
  · intro h ad had
    have heq := h.ad top htop
    rw [ads_heard, had, Option.some_or] at heq
    rw [Option.some.inj heq]
    exact htop
  · intro h
    have heq : last = top := hunique last (h last hlast)
    subst heq
    refine ⟨fun ad had => ?_, fun ad had => ?_⟩
    · rw [ads_heard, hlast, hunique ad had]
      rfl
    · rw [hunique ad had]
      have hkey : ∀ ad ∈ l, ad.peerId = p → ad.verifyingKey x = some vk :=
        fun ad hmem hp => (hads ad ((hl ad hp).mp hmem)).2
      rcases identity_heard hnew l hkey with ⟨hnone, -⟩ | ⟨ad', id, hlast', hid, hheard⟩
      · rw [hlast] at hnone
        cases hnone
      · rw [hlast] at hlast'
        cases hlast'
        refine ⟨id, hid, ?_, hheard.readiness, hheard.reachableAddrs⟩
        -- the greatest time of all arrivals is that of the newest
        obtain ⟨ad', hmem, hp', ht⟩ := hheard.attained
        refine UInt64.le_antisymm ?_ (hheard.upper last (mem_of_lastOf hlast).1 (mem_of_lastOf hlast).2)
        rw [← ht]
        exact htop.2 ad' ((hl ad' hp').mp hmem)

/-- **Convergence of the registry.**  Take advertisements of one peer with one key
and pairwise distinct times, and two orders in which they reach a registry that
does not know the peer.  Both end in the newest advertisement and in the identity
it describes if and only if the newest is the last of the peer to arrive in
both. -/
theorem newest_kept_iff (x : Externals W) (reg : PeerRegistry) (p : PeerId) (vk : VerifyingKey)
    (ads : Finset CapabilityAdvertisement) (hnew : reg.identities.find? p = none)
    (hads : ∀ ad ∈ ads, ad.peerId = p ∧ ad.verifyingKey x = some vk)
    (hdist : ∀ ad ∈ ads, ∀ ad' ∈ ads, ad.signedAt = ad'.signedAt → ad = ad')
    (hne : ads.Nonempty) (l₁ l₂ : List CapabilityAdvertisement) (hl₁ : Delivers p ads l₁)
    (hl₂ : Delivers p ads l₂) :
    (NewestKept (run (hear x) reg l₁) p ads ∧ NewestKept (run (hear x) reg l₂) p ads) ↔
      EndsWithNewest p ads l₁ ∧ EndsWithNewest p ads l₂ :=
  and_congr (newestKept_run_iff hnew hads hdist hne hl₁)
    (newestKept_run_iff hnew hads hdist hne hl₂)

/-- Peer 4 is ready at second 1 and stopped at second 2. -/
def readyAd : CapabilityAdvertisement := { adOf 4 with signedAt := 1 }
def stoppedAd : CapabilityAdvertisement := { adOf 4 with signedAt := 2, readiness := .stopped }

theorem stoppedAd_newest : Newest {readyAd, stoppedAd} stoppedAd := by
  refine ⟨by simp, ?_⟩
  simp only [Finset.mem_insert, Finset.mem_singleton, forall_eq_or_imp, forall_eq]
  decide +kernel

theorem delivers_either_order :
    Delivers (peerOf 4) {readyAd, stoppedAd} [readyAd, stoppedAd] ∧
      Delivers (peerOf 4) {readyAd, stoppedAd} [stoppedAd, readyAd] :=
  ⟨fun ad _ => by simp, fun ad _ => by simp [or_comm]⟩

/-- The node that hears the older advertisement last keeps the stopped peer as
ready. -/
theorem late_ready_ad_kept :
    Delivers (peerOf 4) {readyAd, stoppedAd} [readyAd, stoppedAd] ∧
    Delivers (peerOf 4) {readyAd, stoppedAd} [stoppedAd, readyAd] ∧
    ¬ (NewestKept (run (hear .bare) .new [readyAd, stoppedAd]) (peerOf 4) {readyAd, stoppedAd} ∧
      NewestKept (run (hear .bare) .new [stoppedAd, readyAd]) (peerOf 4)
        {readyAd, stoppedAd}) := by
  refine ⟨delivers_either_order.1, delivers_either_order.2, fun h => ?_⟩
  exact absurd (h.2.ad stoppedAd stoppedAd_newest) (by decide +kernel)

/-- Heard in the order of their times, the advertisements are kept as they are. -/
theorem stopped_ad_kept :
    NewestKept (run (hear .bare) .new [readyAd, stoppedAd]) (peerOf 4) {readyAd, stoppedAd} := by
  have hads : ∀ ad ∈ ({readyAd, stoppedAd} : Finset CapabilityAdvertisement),
      ad.peerId = peerOf 4 ∧
        ad.verifyingKey Externals.bare = some (keyOf 4).verifyingKey := by
    simp only [Finset.mem_insert, Finset.mem_singleton, forall_eq_or_imp, forall_eq]
    decide +kernel
  have hdist : ∀ ad ∈ ({readyAd, stoppedAd} : Finset CapabilityAdvertisement),
      ∀ ad' ∈ ({readyAd, stoppedAd} : Finset CapabilityAdvertisement),
        ad.signedAt = ad'.signedAt → ad = ad' := by
    simp only [Finset.mem_insert, Finset.mem_singleton, forall_eq_or_imp, forall_eq]
    decide +kernel
  have hends : EndsWithNewest (peerOf 4) {readyAd, stoppedAd} [readyAd, stoppedAd] := by
    intro ad had
    have hlast : lastOf (peerOf 4) [readyAd, stoppedAd] = some stoppedAd := by decide +kernel
    rw [hlast] at had
    cases had
    exact stoppedAd_newest
  exact ((newest_kept_iff Externals.bare .new (peerOf 4) (keyOf 4).verifyingKey
    {readyAd, stoppedAd} rfl hads hdist (by simp) [readyAd, stoppedAd] [readyAd, stoppedAd]
    delivers_either_order.1 delivers_either_order.1).mpr ⟨hends, hends⟩).1

end PeerRegistry

end Parseh.Core
