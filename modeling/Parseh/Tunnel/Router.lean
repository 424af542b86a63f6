import Mathlib.Data.Prod.Lex
import Parseh.Core.Matching

/-!
# Exit selection (`parseh-tunnel`, `router.rs`)

The selector takes a snapshot of the registry, keeps whoever offers `Relay` and ranks
them by bandwidth.  It looks at no readiness, at no external-internet flag and at no
identity, and it keeps no record of what has failed.  A snapshot lists the
advertisements in any order.

* `exit_eq_some_iff`: the exit of a call is the relay that no other relay outranks,
  the failed one left out;
* `exit_ready_iff`: so it is a ready bridge exactly if that relay is one;
* `tries_alternate`: after failures the first two candidates take turns;
* `visitsAll_iff`: so all are tried exactly if there are at most two.
-/

namespace Parseh.Tunnel

open Parseh.Core Parseh.Lib Parseh.Wire

structure ExitCandidate where
  peerId : PeerId
  networkAddress : Multiaddr
  bandwidthMbpsExternal : UInt32
  hasExternalInternet : Bool
  deriving DecidableEq

namespace ExitCandidate

def fromAdvertisement (ad : CapabilityAdvertisement) : Option ExitCandidate :=
  if !ad.services.contains .relay then none
  else
    let bandwidth := (ad.relay.map RelayCapability.bandwidthMbps).getD 0
    some
      { peerId := ad.peerId
        networkAddress := ad.networkAddress
        bandwidthMbpsExternal := bandwidth
        hasExternalInternet := true }

/-- What candidates are compared by: bandwidth descending, then the bytes of the peer. -/
def rank (c : ExitCandidate) : ℕᵒᵈ ×ₗ List ℕ :=
  toLex (OrderDual.toDual c.bandwidthMbpsExternal.toNat, c.peerId.key)

end ExitCandidate

namespace ExitSelector

open ExitCandidate

/-- `ranked_candidates`, over a snapshot of the registry. -/
def rankedCandidates (snapshot : List CapabilityAdvertisement) : List ExitCandidate :=
  sortByKey rank ((snapshot.filterMap fromAdvertisement).filter fun c => c.hasExternalInternet)

def pickExit (snapshot : List CapabilityAdvertisement) (_target : String) : Option ExitCandidate :=
  (rankedCandidates snapshot).head?

def failover (snapshot : List CapabilityAdvertisement) (failed : PeerId) (_target : String) :
    Option ExitCandidate :=
  (rankedCandidates snapshot).find? fun c => c.peerId ≠ failed

/-- A call of the selector. -/
inductive Call
  | pickExit (target : String)
  | failover (failed : PeerId) (target : String)

/-- The exit a call gives. -/
def exit (snapshot : List CapabilityAdvertisement) : Call → Option ExitCandidate
  | .pickExit target => ExitSelector.pickExit snapshot target
  | .failover failed target => ExitSelector.failover snapshot failed target

/-! ## The candidates -/

theorem fromAdvertisement_eq_some {ad : CapabilityAdvertisement} {c : ExitCandidate} :
    fromAdvertisement ad = some c ↔ .relay ∈ ad.services ∧
      c = ⟨ad.peerId, ad.networkAddress, (ad.relay.map RelayCapability.bandwidthMbps).getD 0,
        true⟩ := by
  by_cases h : ServiceKind.relay ∈ ad.services
  · simp [fromAdvertisement, h, eq_comm]
  · simp [fromAdvertisement, h]

theorem peerId_of_fromAdvertisement {ad : CapabilityAdvertisement} {c : ExitCandidate}
    (h : fromAdvertisement ad = some c) : c.peerId = ad.peerId := by
  obtain ⟨-, rfl⟩ := fromAdvertisement_eq_some.mp h
  rfl

theorem peerId_of_rank {c c' : ExitCandidate} (h : c.rank = c'.rank) : c.peerId = c'.peerId :=
  PeerId.key_injective (congrArg (fun r => (ofLex r).2) h)

/-- The flag is set by the projection, so it leaves nobody out. -/
theorem rankedCandidates_eq (snapshot : List CapabilityAdvertisement) :
    rankedCandidates snapshot = sortByKey rank (snapshot.filterMap fromAdvertisement) := by
  have hall : (snapshot.filterMap fromAdvertisement).filter (fun c => c.hasExternalInternet) =
      snapshot.filterMap fromAdvertisement := by
    refine List.filter_eq_self.mpr fun c hc => ?_
    obtain ⟨ad, -, had⟩ := List.mem_filterMap.mp hc
    obtain ⟨-, rfl⟩ := fromAdvertisement_eq_some.mp had
    rfl
  rw [rankedCandidates, hall]

section

variable {snapshot snapshot' : List CapabilityAdvertisement}

theorem mem_rankedCandidates {c : ExitCandidate} :
    c ∈ rankedCandidates snapshot ↔ ∃ ad ∈ snapshot, fromAdvertisement ad = some c := by
  rw [rankedCandidates_eq, mem_sortByKey, List.mem_filterMap]

theorem map_peerId_sublist (snapshot : List CapabilityAdvertisement) :
    ((snapshot.filterMap fromAdvertisement).map ExitCandidate.peerId).Sublist
      (snapshot.map CapabilityAdvertisement.peerId) := by
  induction snapshot with
  | nil => simp
  | cons ad snapshot ih =>
    cases had : fromAdvertisement ad with
    | none => simpa [List.filterMap_cons, had] using ih.cons _
    | some c => simpa [List.filterMap_cons, had, peerId_of_fromAdvertisement had] using ih

/-- No peer is a candidate twice. -/
theorem nodup_rankedCandidates (h : (snapshot.map CapabilityAdvertisement.peerId).Nodup) :
    ((rankedCandidates snapshot).map ExitCandidate.peerId).Nodup := by
  rw [rankedCandidates_eq, ((sortByKey_perm_self _ _).map _).nodup_iff]
  exact (map_peerId_sublist snapshot).nodup h

/-- The ranking does not depend on the order of the snapshot. -/
theorem rankedCandidates_perm (h : (snapshot.map CapabilityAdvertisement.peerId).Nodup)
    (hperm : snapshot.Perm snapshot') : rankedCandidates snapshot = rankedCandidates snapshot' := by
  rw [rankedCandidates_eq, rankedCandidates_eq]
  refine sortByKey_perm_of_injOn (fun c hc c' hc' heq => ?_) (hperm.filterMap _)
  exact List.inj_on_of_nodup_map ((map_peerId_sublist snapshot).nodup h) hc hc' (peerId_of_rank heq)

theorem length_rankedCandidates (snapshot : List CapabilityAdvertisement) :
    (rankedCandidates snapshot).length =
      snapshot.countP fun ad => ad.services.contains .relay := by
  rw [rankedCandidates_eq, (sortByKey_perm_self _ _).length_eq]
  induction snapshot with
  | nil => rfl
  | cons ad snapshot ih =>
    by_cases h : ServiceKind.relay ∈ ad.services
    · simp [fromAdvertisement, h, ih]
    · simp [fromAdvertisement, h, ih]

end

/-! ## The exit of a call -/

/-- One relay stands before another in the ranking. -/
def Outranks (ad ad' : CapabilityAdvertisement) : Prop :=
  PeerRegistry.capacity .relay ad' < PeerRegistry.capacity .relay ad ∨
    PeerRegistry.capacity .relay ad' = PeerRegistry.capacity .relay ad ∧
      ad.peerId.key < ad'.peerId.key

/-- The call may give this peer: `failover` leaves one out. -/
def Call.keeps : Call → PeerId → Bool
  | .pickExit _, _ => true
  | .failover failed _, p => p ≠ failed

/-- A relay of the registry that the call may give and that no other such relay
outranks. -/
structure Leads (reg : PeerRegistry) (call : Call) (ad : CapabilityAdvertisement) : Prop where
  stored : ad ∈ reg.ads.rows
  relay : ServiceKind.relay ∈ ad.services
  kept : call.keeps ad.peerId = true
  first : ∀ ad' ∈ reg.ads.rows, ServiceKind.relay ∈ ad'.services →
    call.keeps ad'.peerId = true → ¬ Outranks ad' ad

theorem rank_lt_iff {ad ad' : CapabilityAdvertisement} {c c' : ExitCandidate}
    (h : fromAdvertisement ad = some c) (h' : fromAdvertisement ad' = some c') :
    c.rank < c'.rank ↔ Outranks ad ad' := by
  obtain ⟨-, rfl⟩ := fromAdvertisement_eq_some.mp h
  obtain ⟨-, rfl⟩ := fromAdvertisement_eq_some.mp h'
  rw [rank, rank, Prod.Lex.toLex_lt_toLex, OrderDual.toDual_lt_toDual,
    OrderDual.toDual.injective.eq_iff]
  exact Iff.rfl.or (and_congr_left' eq_comm)

/-- At most one relay leads. -/
theorem Leads.unique {reg : PeerRegistry} {call : Call} {ad ad' : CapabilityAdvertisement}
    (h : Leads reg call ad) (h' : Leads reg call ad') : ad = ad' := by
  have hc := fromAdvertisement_eq_some.mpr ⟨h.relay, rfl⟩
  have hc' := fromAdvertisement_eq_some.mpr ⟨h'.relay, rfl⟩
  have hle := mt (rank_lt_iff hc' hc).mp (h.first ad' h'.stored h'.relay h'.kept)
  have hle' := mt (rank_lt_iff hc hc').mp (h'.first ad h.stored h.relay h.kept)
  exact reg.ads.eq_of_key_eq h.stored h'.stored
    (peerId_of_rank (le_antisymm (not_lt.mp hle) (not_lt.mp hle')))

/-- Every call takes the first candidate it may give. -/
theorem exit_eq_find? (snapshot : List CapabilityAdvertisement) (call : Call) :
    exit snapshot call = (rankedCandidates snapshot).find? fun c => call.keeps c.peerId := by
  cases call with
  | pickExit target =>
    show (rankedCandidates snapshot).head? = (rankedCandidates snapshot).find? fun _ => true
    cases rankedCandidates snapshot <;> rfl
  | failover failed target => rfl

section

variable {reg : PeerRegistry} {snapshot : List CapabilityAdvertisement} {call : Call}
  (hsnap : snapshot.Perm reg.ads.rows)
include hsnap

theorem leads_of_exit {c : ExitCandidate} (h : exit snapshot call = some c) :
    ∃ ad, Leads reg call ad ∧ fromAdvertisement ad = some c := by
  rw [exit_eq_find?, rankedCandidates_eq] at h
  obtain ⟨hmem, hkept, hfirst⟩ := find?_sortByKey h
  obtain ⟨ad, hstored, had⟩ := List.mem_filterMap.mp hmem
  have hpeer := peerId_of_fromAdvertisement had
  refine ⟨ad, ⟨hsnap.mem_iff.mp hstored, (fromAdvertisement_eq_some.mp had).1, hpeer ▸ hkept, ?_⟩,
    had⟩
  intro ad' hstored' hrelay' hkept' houtranks
  have had' := fromAdvertisement_eq_some.mpr ⟨hrelay', rfl⟩
  have hle := hfirst _ (List.mem_filterMap.mpr ⟨ad', hsnap.mem_iff.mpr hstored', had'⟩) hkept'
  exact absurd ((rank_lt_iff had' had).mpr houtranks) (not_lt.mpr hle)

/-- The exit of a call is the relay that leads. -/
theorem exit_eq_some_iff {c : ExitCandidate} :
    exit snapshot call = some c ↔ ∃ ad, Leads reg call ad ∧ fromAdvertisement ad = some c := by
  refine ⟨leads_of_exit hsnap, ?_⟩
  rintro ⟨ad, hleads, had⟩
  -- the call gives somebody, who leads as well
  cases hexit : exit snapshot call with
  | none =>
    rw [exit_eq_find?, List.find?_eq_none] at hexit
    have hmem := mem_rankedCandidates.mpr ⟨ad, hsnap.mem_iff.mpr hleads.stored, had⟩
    exact absurd (peerId_of_fromAdvertisement had ▸ hleads.kept) (hexit c hmem)
  | some c' =>
    obtain ⟨ad', hleads', had'⟩ := leads_of_exit hsnap hexit
    rw [hleads.unique hleads', had'] at had
    exact had

end

/-- The peer advertises `Relay` and is a ready peer with external internet. -/
def ReadyExit (reg : PeerRegistry) (p : PeerId) : Prop :=
  (∃ ad ∈ reg.ads.rows, ad.peerId = p ∧ ServiceKind.relay ∈ ad.services) ∧
    p ∈ reg.readyPeersWithExternalInternet.map PeerIdentity.peerId

/-- The advertisement of a bridge: an eligible state, the flag, and a known key. -/
structure IsBridge (reg : PeerRegistry) (ad : CapabilityAdvertisement) : Prop where
  eligible : ad.readiness.isEligible = true
  flagged : ad.hasExternalInternet = true
  known : reg.identities.contains ad.peerId = true

theorem readyExit_iff {reg : PeerRegistry} {ad : CapabilityAdvertisement}
    (hstored : ad ∈ reg.ads.rows) (hrelay : ServiceKind.relay ∈ ad.services) :
    ReadyExit reg ad.peerId ↔ IsBridge reg ad := by
  constructor
  · rintro ⟨-, hready⟩
    obtain ⟨id, hid, hpeer⟩ := List.mem_map.mp hready
    obtain ⟨ad', hstored', hflag, helig, hfind⟩ := PeerRegistry.mem_readyPeers.mp hid
    obtain ⟨hmem, hkey⟩ := Keyed.find?_eq_some_iff.mp hfind
    obtain rfl := reg.ads.eq_of_key_eq hstored' hstored (hkey.symm.trans hpeer)
    exact ⟨helig, hflag, hpeer ▸ Keyed.contains_of_mem hmem⟩
  · intro hbridge
    obtain ⟨id, hid, hpeer⟩ := Keyed.contains_iff.mp hbridge.known
    refine ⟨⟨ad, hstored, rfl, hrelay⟩, List.mem_map.mpr ⟨id, ?_, hpeer⟩⟩
    exact PeerRegistry.mem_readyPeers.mpr ⟨ad, hstored, hbridge.flagged, hbridge.eligible,
      Keyed.find?_eq_some_iff.mpr ⟨hid, hpeer⟩⟩

/-- For every registry, every order of its snapshot and every call: whoever the call
gives is a ready exit if and only if the relay that leads is a bridge. -/
theorem exit_ready_iff (reg : PeerRegistry) (snapshot : List CapabilityAdvertisement)
    (hsnap : snapshot.Perm reg.ads.rows) (call : Call) :
    (∀ c, exit snapshot call = some c → ReadyExit reg c.peerId) ↔
      ∀ ad, Leads reg call ad → IsBridge reg ad := by
  constructor
  · intro h ad hleads
    have had := fromAdvertisement_eq_some.mpr ⟨hleads.relay, rfl⟩
    have hready := h _ ((exit_eq_some_iff hsnap).mpr ⟨ad, hleads, had⟩)
    exact (readyExit_iff hleads.stored hleads.relay).mp hready
  · intro h c hc
    obtain ⟨ad, hleads, had⟩ := (exit_eq_some_iff hsnap).mp hc
    rw [peerId_of_fromAdvertisement had]
    exact (readyExit_iff hleads.stored hleads.relay).mpr (h ad hleads)

/-- An advertisement of the peer `n` as a relay that has no external internet. -/
def relayAd (n : UInt8) (bandwidthMbps : UInt32) : CapabilityAdvertisement :=
  { adOf n with services := [.relay], relay := some ⟨bandwidthMbps, []⟩ }

/-- The registry that has heard these advertisements. -/
def registryOf (ads : List CapabilityAdvertisement) : PeerRegistry :=
  PeerRegistry.after Externals.bare (ads.map .upsert)

def stoppedRegistry : PeerRegistry := registryOf [{ relayAd 4 100 with readiness := .stopped }]

/-- A stopped relay without external internet is picked. -/
theorem stopped_relay_picked :
    exit stoppedRegistry.ads.rows (.pickExit "example.com:443") = some ⟨peerOf 4, "", 100, true⟩ ∧
      ¬ ReadyExit stoppedRegistry (peerOf 4) := by
  refine ⟨by decide +kernel, fun h => ?_⟩
  have hready := h.2
  revert hready
  decide +kernel

/-- A bridge, and a slower relay that is none. -/
def bridgeAd : CapabilityAdvertisement := { relayAd 4 100 with hasExternalInternet := true }

def bridgeRegistry : PeerRegistry := registryOf [bridgeAd, relayAd 5 10]

/-- The bridge is picked, and it is ready. -/
theorem bridge_picked :
    exit bridgeRegistry.ads.rows (.pickExit "example.com:443") = some ⟨peerOf 4, "", 100, true⟩ ∧
      ReadyExit bridgeRegistry (peerOf 4) := by
  have hexit : exit bridgeRegistry.ads.rows (.pickExit "example.com:443") =
      some ⟨peerOf 4, "", 100, true⟩ := by decide +kernel
  refine ⟨hexit, (exit_ready_iff bridgeRegistry _ (List.Perm.refl _) _).mpr ?_ _ hexit⟩
  intro ad hleads
  have hrows : bridgeRegistry.ads.rows = [bridgeAd, relayAd 5 10] := by decide +kernel
  have hstored := hleads.stored
  rw [hrows, List.mem_pair] at hstored
  rcases hstored with rfl | rfl
  · exact ⟨rfl, rfl, by decide +kernel⟩
  · refine absurd (Or.inl ?_) (hleads.first bridgeAd (by rw [hrows]; simp) (by decide) rfl)
    decide

/-! ## Failing over -/

/-- The exits that are tried: first the picked one, then, as long as exits fail, the one
that `failover` gives for the last that failed.  Each call takes its own snapshot. -/
def tries (snapshots : ℕ → List CapabilityAdvertisement) (target : String) :
    ℕ → Option ExitCandidate
  | 0 => pickExit (snapshots 0) target
  | k + 1 => (tries snapshots target k).bind fun c => failover (snapshots (k + 1)) c.peerId target

/-- The first tries are all the candidates, in their order. -/
def VisitsAll (candidates : List ExitCandidate) (tried : ℕ → Option ExitCandidate) : Prop :=
  ∀ k < candidates.length, tried k = candidates[k]?

instance (candidates : List ExitCandidate) (tried : ℕ → Option ExitCandidate) :
    Decidable (VisitsAll candidates tried) :=
  inferInstanceAs (Decidable (∀ k < candidates.length, tried k = candidates[k]?))

section

variable {reg : PeerRegistry} {snapshots : ℕ → List CapabilityAdvertisement} {target : String}
  (hsnaps : ∀ k, (snapshots k).Perm reg.ads.rows)
include hsnaps

theorem rankedCandidates_snapshots (k : ℕ) :
    rankedCandidates (snapshots k) = rankedCandidates reg.ads.rows :=
  rankedCandidates_perm (((hsnaps k).map _).nodup_iff.mpr reg.ads.nodup) (hsnaps k)

theorem tries_zero : tries snapshots target 0 = (rankedCandidates reg.ads.rows)[0]? := by
  rw [tries, pickExit, rankedCandidates_snapshots hsnaps, List.head?_eq_getElem?]

theorem tries_succ {k : ℕ} {c : ExitCandidate} (h : tries snapshots target k = some c) :
    tries snapshots target (k + 1) =
      (rankedCandidates reg.ads.rows).find? fun c' => c'.peerId ≠ c.peerId := by
  rw [tries, h, Option.bind_some, failover, rankedCandidates_snapshots hsnaps]

/-- The first two candidates take turns. -/
theorem tries_alternate {first second : ExitCandidate} {rest : List ExitCandidate}
    (hranked : rankedCandidates reg.ads.rows = first :: second :: rest) (k : ℕ) :
    tries snapshots target k = some (if k % 2 = 0 then first else second) := by
  have hne : second.peerId ≠ first.peerId := by
    have hnodup := nodup_rankedCandidates reg.ads.nodup
    rw [hranked, List.map_cons, List.map_cons, List.nodup_cons] at hnodup
    exact fun heq => hnodup.1 (heq ▸ List.mem_cons_self)
  induction k with
  | zero => rw [tries_zero hsnaps, hranked]; rfl
  | succ k ih =>
    rw [tries_succ hsnaps ih, hranked]
    rcases Nat.mod_two_eq_zero_or_one k with h | h
    · have h' : (k + 1) % 2 = 1 := by omega
      simp [h, h', hne]
    · have h' : (k + 1) % 2 = 0 := by omega
      simp [h, h', hne.symm]

end

/-- For every registry, whatever the orders of the snapshots: all candidates are tried,
in the order of their rank, before one is tried again, if and only if at most two peers
advertise `Relay`. -/
theorem visitsAll_iff (reg : PeerRegistry) (snapshots : ℕ → List CapabilityAdvertisement)
    (hsnaps : ∀ k, (snapshots k).Perm reg.ads.rows) (target : String) :
    VisitsAll (rankedCandidates reg.ads.rows) (tries snapshots target) ↔
      (reg.ads.rows.countP fun ad => ad.services.contains .relay) ≤ 2 := by
  have hnodup := nodup_rankedCandidates reg.ads.nodup
  rw [← length_rankedCandidates]
  match hranked : rankedCandidates reg.ads.rows with
  | [] => simp [VisitsAll]
  | [c] =>
    have hzero : tries snapshots target 0 = _ := tries_zero hsnaps
    rw [hranked] at hzero
    simp [VisitsAll, hzero]
  | [first, second] =>
    refine iff_of_true (fun k hk => ?_) (le_refl _)
    rw [tries_alternate hsnaps hranked k]
    match k, hk with
    | 0, _ => rfl
    | 1, _ => rfl
  | first :: second :: third :: rest =>
    refine iff_of_false (fun h => ?_) (by simp)
    have hthird := h 2 (by simp)
    rw [tries_alternate hsnaps hranked] at hthird
    rw [hranked] at hnodup
    -- the third try is the first candidate again
    obtain rfl : first = third := Option.some.inj hthird
    simp at hnodup

def threeRelays : PeerRegistry := registryOf [relayAd 4 300, relayAd 5 200, relayAd 6 100]

/-- Of three relays the first is tried again after two failures, and the third is not. -/
theorem third_relay_not_tried :
    ¬ VisitsAll (rankedCandidates threeRelays.ads.rows)
        (tries (fun _ => threeRelays.ads.rows) "example.com:443") ∧
      ((tries (fun _ => threeRelays.ads.rows) "example.com:443" 2).map ExitCandidate.peerId =
        some (peerOf 4)) := by
  decide +kernel

/-- Of two relays both are tried. -/
theorem two_relays_tried :
    VisitsAll (rankedCandidates (registryOf [relayAd 4 300, relayAd 5 200]).ads.rows)
      (tries (fun _ => (registryOf [relayAd 4 300, relayAd 5 200]).ads.rows)
        "example.com:443") :=
  (visitsAll_iff _ _ (fun _ => List.Perm.refl _) _).mpr (by decide +kernel)

end ExitSelector

end Parseh.Tunnel
