import Parseh.Core.RegistryOrder

/-!
# Capability matching

`ready_peers_for_service` and `ready_peers_with_external_internet` join the two maps
of the registry.  Advertisements are overwritten and expire; a key, once recorded,
stays.  A hash map is iterated in any order, so both are stated over any list of the
current advertisements.

* `mem_ads_run_iff`: the advertisements of a registry are those that the last
  `upsert` of their peer brought and no `prune_expired` has found expired since;
* `contains_identity_iff`: a peer is in the directory exactly when a key of it has
  ever been recorded;
* `matching_exact`: so a peer is listed exactly when it should be, once, and the
  list goes down in the figure it is ranked by.
-/

namespace Parseh.Core

open Parseh.Lib Parseh.Wire

namespace PeerRegistry

variable {W : Type}

/-! ## The queries -/

/-- The eligible advertisements that `offers` selects, with their identities, by
descending `figure`. -/
def readyPeers (identities : Keyed PeerIdentity.peerId) (values : List CapabilityAdvertisement)
    (offers : CapabilityAdvertisement → Bool) (figure : CapabilityAdvertisement → Nat) :
    List PeerIdentity :=
  (sortByKey (fun p => OrderDual.toDual (figure p.2))
    (((values.filter offers).filter fun ad => ad.readiness.isEligible).filterMap
      fun ad => (identities.find? ad.peerId).map fun id => (id, ad))).map Prod.fst

theorem readyPeersForService_eq (reg : PeerRegistry) (kind : ServiceKind) :
    reg.readyPeersForService kind =
      readyPeers reg.identities reg.ads.rows (fun ad => ad.services.contains kind)
        (capacity kind) := rfl

/-- The figure an exit is ranked by. -/
def externalBandwidth (ad : CapabilityAdvertisement) : Nat :=
  (ad.bandwidthMbpsExternal.getD 0).toNat

/-- `ready_peers_with_external_internet`. -/
def readyPeersWithExternalInternet (reg : PeerRegistry) : List PeerIdentity :=
  readyPeers reg.identities reg.ads.rows (fun ad => ad.hasExternalInternet) externalBandwidth

/-! ## Runs of the registry -/

/-- A call that changes the registry. -/
inductive Change
  | upsert (ad : CapabilityAdvertisement)
  | recordIdentity (identity : PeerIdentity)
  | pruneExpired (now : UInt64)

variable (x : Externals W)

def change (reg : PeerRegistry) : Change → PeerRegistry
  | .upsert ad => reg.hear x ad
  | .recordIdentity identity => reg.recordIdentity identity
  | .pruneExpired now => (reg.pruneExpired now).2

/-- The registry after some calls. -/
def after (calls : List Change) : PeerRegistry := run (change x) new calls

/-- The call records a key of the peer. -/
def Change.Records (p : PeerId) : Change → Prop
  | .upsert ad => ad.peerId = p ∧ ∃ vk, ad.verifyingKey x = some vk
  | .recordIdentity identity => identity.peerId = p
  | .pruneExpired _ => False

/-- The calls brought the advertisement, its peer sent no other since, and it was
not expired when the registry was pruned. -/
def IsCurrent (calls : List Change) (ad : CapabilityAdvertisement) : Prop :=
  ∃ pre post, calls = pre ++ .upsert ad :: post ∧
    (∀ ad', .upsert ad' ∈ post → ad'.peerId ≠ ad.peerId) ∧
    ∀ now, .pruneExpired now ∈ post → isExpired ad now = false

/-- A key of the peer has been recorded. -/
def KeyRecorded (calls : List Change) (p : PeerId) : Prop := ∃ c ∈ calls, c.Records x p

/-! ### What one call does -/

variable {x} {reg : PeerRegistry} {calls : List Change}

theorem mem_ads_hear {ad ad' : CapabilityAdvertisement} :
    ad' ∈ (reg.hear x ad).ads.rows ↔ (ad' ∈ reg.ads.rows ∧ ad'.peerId ≠ ad.peerId) ∨ ad' = ad := by
  unfold hear PeerRegistry.upsert
  cases ad.verifyingKey x <;> exact Keyed.mem_upsert

theorem after_append (calls : List Change) (c : Change) :
    after x (calls ++ [c]) = change x (after x calls) c := by
  rw [after, run_append]
  rfl

/-- What is current after one call more. -/
theorem isCurrent_append (c : Change) (ad : CapabilityAdvertisement) :
    IsCurrent (calls ++ [c]) ad ↔ c = .upsert ad ∨
      (IsCurrent calls ad ∧ (∀ ad', c = .upsert ad' → ad'.peerId ≠ ad.peerId) ∧
        ∀ now, c = .pruneExpired now → isExpired ad now = false) := by
  constructor
  · rintro ⟨pre, post, heq, hno, hfresh⟩
    rcases List.eq_nil_or_concat post with rfl | ⟨post, last, rfl⟩
    · obtain ⟨-, hlast⟩ := List.append_singleton_inj.mp heq
      exact Or.inl hlast
    · rw [List.concat_eq_append, ← List.cons_append, ← List.append_assoc] at heq
      obtain ⟨rfl, rfl⟩ := List.append_singleton_inj.mp heq
      simp only [List.concat_eq_append, List.mem_append, List.mem_singleton] at hno hfresh
      refine Or.inr ⟨⟨pre, post, rfl, ?_, ?_⟩, ?_, ?_⟩
      · exact fun ad' h => hno ad' (Or.inl h)
      · exact fun now h => hfresh now (Or.inl h)
      · exact fun ad' h => hno ad' (Or.inr h.symm)
      · exact fun now h => hfresh now (Or.inr h.symm)
  · rintro (rfl | ⟨⟨pre, post, rfl, hno, hfresh⟩, hno', hfresh'⟩)
    · exact ⟨calls, [], rfl, by simp, by simp⟩
    · refine ⟨pre, post ++ [c], by simp, fun ad' h => ?_, fun now h => ?_⟩
      · rcases List.mem_append.mp h with h | h
        · exact hno ad' h
        · exact hno' ad' (List.mem_singleton.mp h).symm
      · rcases List.mem_append.mp h with h | h
        · exact hfresh now h
        · exact hfresh' now (List.mem_singleton.mp h).symm

/-- **The advertisements of a registry are the current ones.** -/
theorem mem_ads_run_iff (x : Externals W) (calls : List Change) (ad : CapabilityAdvertisement) :
    ad ∈ (after x calls).ads.rows ↔ IsCurrent calls ad := by
  induction calls using List.reverseRecOn with
  | nil =>
    constructor
    · intro h
      cases h
    · rintro ⟨pre, post, heq, -⟩
      simp at heq
  | append_singleton calls c ih =>
    rw [after_append, isCurrent_append, ← ih]
    cases c with
    | upsert ad' =>
      rw [change, mem_ads_hear]
      simp only [Change.upsert.injEq, reduceCtorEq, false_imp_iff, implies_true, and_true,
        forall_eq']
      constructor
      · rintro (⟨h, hne⟩ | rfl)
        · exact Or.inr ⟨h, hne.symm⟩
        · exact Or.inl rfl
      · rintro (rfl | ⟨h, hne⟩)
        · exact Or.inr rfl
        · exact Or.inl ⟨h, hne.symm⟩
    | recordIdentity identity => simp [change, PeerRegistry.recordIdentity]
    | pruneExpired now =>
      simp only [change, PeerRegistry.pruneExpired, Keyed.mem_retain, Change.pruneExpired.injEq,
        reduceCtorEq, false_imp_iff, implies_true, true_and, false_or, forall_eq',
        Bool.not_eq_true']

theorem contains_identity_iff_key (reg : PeerRegistry) (p : PeerId) :
    reg.identities.contains p = true ↔ ∃ vk, reg.verifyingKey p = some vk := by
  cases hf : reg.identities.find? p with
  | none => simp [verifyingKey, hf, Keyed.find?_eq_none_iff.mp hf]
  | some identity =>
    obtain ⟨hmem, rfl⟩ := Keyed.find?_eq_some_iff.mp hf
    simp [verifyingKey, hf, Keyed.contains_of_mem hmem]

theorem contains_identity_change (c : Change) (p : PeerId) :
    (change x reg c).identities.contains p = true ↔
      reg.identities.contains p = true ∨ c.Records x p := by
  rw [contains_identity_iff_key, contains_identity_iff_key]
  cases c with
  | upsert ad =>
    rw [change, hear, verifyingKey_upsert]
    split
    · next hp =>
      cases hvk : ad.verifyingKey x with
      | none => simp [Change.Records, hvk]
      | some vk => simp [Change.Records, hp, hvk]
    · next hp => simp [Change.Records, hp]
  | recordIdentity identity =>
    rw [change, verifyingKey_recordIdentity]
    split
    · next hp => simp [Change.Records, hp]
    · next hp => simp [Change.Records, hp]
  | pruneExpired now => simp [change, Change.Records]

/-- **The directory holds whoever had a key recorded.** -/
theorem contains_identity_iff (x : Externals W) (calls : List Change) (p : PeerId) :
    (after x calls).identities.contains p = true ↔ KeyRecorded x calls p := by
  induction calls using List.reverseRecOn with
  | nil => simp [after, new, KeyRecorded]
  | append_singleton calls c ih =>
    rw [after_append, contains_identity_change, ih]
    simp only [KeyRecorded, List.mem_append, List.mem_singleton, or_and_right, exists_or,
      exists_eq_left]

/-! ## Exact lists -/

section Lists

variable {identities : Keyed PeerIdentity.peerId} {values : List CapabilityAdvertisement}
  {offers : CapabilityAdvertisement → Bool} {figure : CapabilityAdvertisement → Nat}

/-- The pairs in front of the sort. -/
theorem mem_pairs {id : PeerIdentity} {ad : CapabilityAdvertisement} :
    (id, ad) ∈ ((values.filter offers).filter fun ad => ad.readiness.isEligible).filterMap
        (fun ad => (identities.find? ad.peerId).map fun id => (id, ad)) ↔
      ad ∈ values ∧ offers ad = true ∧ ad.readiness.isEligible = true ∧
        identities.find? ad.peerId = some id := by
  simp only [List.mem_filterMap, List.mem_filter, Option.map_eq_some_iff, Prod.mk.injEq]
  constructor
  · rintro ⟨ad', ⟨⟨hmem, hoff⟩, helig⟩, id', hfind, rfl, rfl⟩
    exact ⟨hmem, hoff, helig, hfind⟩
  · rintro ⟨hmem, hoff, helig, hfind⟩
    exact ⟨ad, ⟨⟨hmem, hoff⟩, helig⟩, id, hfind, rfl, rfl⟩

theorem mem_readyPeers {id : PeerIdentity} :
    id ∈ readyPeers identities values offers figure ↔
      ∃ ad ∈ values, offers ad = true ∧ ad.readiness.isEligible = true ∧
        identities.find? ad.peerId = some id := by
  simp only [readyPeers, List.mem_map, mem_sortByKey, Prod.exists, exists_and_right,
    exists_eq_right, mem_pairs]

/-- Every value gives at most one pair, under its own peer. -/
theorem map_pairs_sublist (l : List CapabilityAdvertisement) :
    ((l.filterMap fun ad => (identities.find? ad.peerId).map fun id => (id, ad)).map
      fun p => p.1.peerId).Sublist (l.map CapabilityAdvertisement.peerId) := by
  induction l with
  | nil => simp
  | cons ad l ih =>
    cases hf : identities.find? ad.peerId with
    | none => simpa [List.filterMap_cons, hf] using ih.cons _
    | some id =>
      have hid : id.peerId = ad.peerId := (Keyed.find?_eq_some_iff.mp hf).2
      simpa [List.filterMap_cons, hf, hid] using ih

theorem nodup_readyPeers (h : (values.map CapabilityAdvertisement.peerId).Nodup) :
    ((readyPeers identities values offers figure).map PeerIdentity.peerId).Nodup := by
  have hperm := (sortByKey_perm_self (fun p : PeerIdentity × CapabilityAdvertisement =>
    OrderDual.toDual (figure p.2)) (((values.filter offers).filter
      fun ad => ad.readiness.isEligible).filterMap
        fun ad => (identities.find? ad.peerId).map fun id => (id, ad))).map fun p => p.1.peerId
  rw [readyPeers, List.map_map]
  refine hperm.nodup_iff.mpr ((map_pairs_sublist _).nodup ?_)
  exact ((List.filter_sublist.trans List.filter_sublist).map _).nodup h

theorem ordered_readyPeers (h : (values.map CapabilityAdvertisement.peerId).Nodup) :
    (readyPeers identities values offers figure).Pairwise fun a b =>
      ∀ ad ∈ values, ∀ ad' ∈ values, ad.peerId = a.peerId → ad'.peerId = b.peerId →
        figure ad' ≤ figure ad := by
  rw [readyPeers, List.pairwise_map]
  refine (pairwise_sortByKey _ _).imp_of_mem ?_
  rintro ⟨id, own⟩ ⟨id', own'⟩ ha hb hab ad had ad' had' hid hid'
  obtain ⟨hmem, -, -, hfind⟩ := mem_pairs.mp (mem_sortByKey.mp ha)
  obtain ⟨hmem', -, -, hfind'⟩ := mem_pairs.mp (mem_sortByKey.mp hb)
  -- an advertisement of the same peer is the same one
  have hsame : ad = own := List.inj_on_of_nodup_map h had hmem
    (hid.trans (Keyed.find?_eq_some_iff.mp hfind).2)
  have hsame' : ad' = own' := List.inj_on_of_nodup_map h had' hmem'
    (hid'.trans (Keyed.find?_eq_some_iff.mp hfind').2)
  rw [hsame, hsame']
  exact OrderDual.toDual_le_toDual.mp hab

end Lists

/-- What a list of the peers that `offers` selects is after some calls. -/
structure MatchExact (x : Externals W) (calls : List Change) (listing : List PeerIdentity)
    (offers : CapabilityAdvertisement → Bool) (figure : CapabilityAdvertisement → Nat) :
    Prop where
  once : (listing.map PeerIdentity.peerId).Nodup
  listed : ∀ p, p ∈ listing.map PeerIdentity.peerId ↔
    (∃ ad, IsCurrent calls ad ∧ ad.peerId = p ∧ offers ad = true ∧
      ad.readiness.isEligible = true) ∧ KeyRecorded x calls p
  ordered : listing.Pairwise fun a b =>
    ∀ ad ad', IsCurrent calls ad → IsCurrent calls ad' → ad.peerId = a.peerId →
      ad'.peerId = b.peerId → figure ad' ≤ figure ad

theorem matchExact_readyPeers {values : List CapabilityAdvertisement}
    (hperm : values.Perm (after x calls).ads.rows) (offers : CapabilityAdvertisement → Bool)
    (figure : CapabilityAdvertisement → Nat) :
    MatchExact x calls (readyPeers (after x calls).identities values offers figure) offers
      figure := by
  have hnodup : (values.map CapabilityAdvertisement.peerId).Nodup :=
    (hperm.map _).nodup_iff.mpr (after x calls).ads.nodup
  have hcurrent : ∀ ad, ad ∈ values ↔ IsCurrent calls ad := by
    intro ad
    rw [hperm.mem_iff, mem_ads_run_iff]
  refine ⟨nodup_readyPeers hnodup, fun p => ?_, ?_⟩
  · rw [← contains_identity_iff, List.mem_map]
    constructor
    · rintro ⟨id, hid, rfl⟩
      obtain ⟨ad, had, hoff, helig, hfind⟩ := mem_readyPeers.mp hid
      obtain ⟨hmem, hkey⟩ := Keyed.find?_eq_some_iff.mp hfind
      exact ⟨⟨ad, (hcurrent ad).mp had, hkey.symm, hoff, helig⟩, Keyed.contains_of_mem hmem⟩
    · rintro ⟨⟨ad, had, rfl, hoff, helig⟩, hkey⟩
      obtain ⟨id, hid, hpeer⟩ := Keyed.contains_iff.mp hkey
      refine ⟨id, mem_readyPeers.mpr ⟨ad, (hcurrent ad).mpr had, hoff, helig, ?_⟩, hpeer⟩
      exact Keyed.find?_eq_some_iff.mpr ⟨hid, hpeer⟩
  · refine (ordered_readyPeers hnodup).imp fun {a b} h ad ad' had had' => ?_
    exact h ad ((hcurrent ad).mpr had) ad' ((hcurrent ad').mpr had')

/-- **Capability matching.**  After any calls both queries list exactly the peers whose
current advertisement qualifies and whose key has been recorded, each once and by
descending figure; and so they do in whatever order the map of advertisements is
iterated. -/
theorem matching_exact (x : Externals W) (calls : List Change) :
    (∀ kind, MatchExact x calls ((after x calls).readyPeersForService kind)
      (fun ad => ad.services.contains kind) (capacity kind)) ∧
    MatchExact x calls (after x calls).readyPeersWithExternalInternet
      (fun ad => ad.hasExternalInternet) externalBandwidth ∧
    ∀ values, values.Perm (after x calls).ads.rows →
      (∀ kind, MatchExact x calls (readyPeers (after x calls).identities values
        (fun ad => ad.services.contains kind) (capacity kind))
        (fun ad => ad.services.contains kind) (capacity kind)) ∧
      MatchExact x calls (readyPeers (after x calls).identities values
        (fun ad => ad.hasExternalInternet) externalBandwidth)
        (fun ad => ad.hasExternalInternet) externalBandwidth := by
  refine ⟨fun kind => ?_, matchExact_readyPeers (List.Perm.refl _) _ _, fun values hperm =>
    ⟨fun kind => matchExact_readyPeers hperm _ _, matchExact_readyPeers hperm _ _⟩⟩
  rw [readyPeersForService_eq]
  exact matchExact_readyPeers (List.Perm.refl _) _ _

/-- The advertisement of peer 4 has expired, that of peer 5 has not. -/
example : ((after Externals.bare
    [.upsert (adOf 4), .upsert { adOf 5 with ttlSeconds := 900 },
      .pruneExpired 600]).readyPeersForService .inference).map PeerIdentity.peerId =
    [peerOf 5] := by
  decide +kernel

end PeerRegistry

end Parseh.Core
