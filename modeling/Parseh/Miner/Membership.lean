import Parseh.Core.Matching
import Parseh.Miner.InFlight
import Parseh.Miner.Readiness

/-!
# Joining and leaving (`miner`, `main.rs`)

A miner makes itself known by `publish_caps_v0_2`, which puts the readiness of the
moment into the advertisement and steps up to `Ready` only after it is sent.  Beside it
stands any other miner, with all that it does.  Gossip loses, repeats and reorders.

* `readiness_step`: what a step of the node does to the tracker;
* `membership_exact`: a miner is listed for a service by what the other holds of it.  Its
  first advertisement does not list it, unless it has executed a task before, every later
  one does, and none says that it has stopped;
* `departure_exact`: so a miner that stops, or is cut off, stays listed until the other
  prunes more than 300 seconds after the advertisement it holds.
-/

namespace Parseh.Miner

open Parseh.Lib Parseh.Wire Parseh.Core Parseh.Shared Parseh.Verify

variable {W : Type}

/-! ## The miner that announces itself -/

def capsWireVersion : UInt32 := 2

/-- The services of the config. -/
def advertisedServices (caps : NodeCapabilities) : List ServiceKind :=
  (if caps.relay then [.relay] else []) ++ (if caps.inference then [.inference] else [])

/-- The advertisement `publish_caps_v0_2` builds. -/
def ownAdvertisement (c : Ctx W) (caps : NodeCapabilities) (now : UInt64)
    (listeners : List Multiaddr) (readiness : ReadinessState) : CapabilityAdvertisement where
  peerId := c.localPeerId
  version := capsWireVersion
  services := advertisedServices caps
  inference := if caps.inference then
      some { models := caps.modelTags, contextSize := 0, estimatedTokensPerSec := 0 }
    else none
  relay := if caps.relay then
      some { bandwidthMbps := caps.uplinkMbps, transportKinds := [] }
    else none
  storage := none
  networkAddress := "/ip4/0.0.0.0/tcp/0"
  signedAt := now
  ttlSeconds := 300
  verifyingKeyBytes := c.verifyingKey.asBytes
  reachableAddrs := listeners
  readiness := readiness
  hasExternalInternet := false
  bandwidthMbpsExternal := none

/-- A miner and what it has published on `parseh.caps.v1`, in order. -/
structure Announcer (W : Type) where
  node : Node W
  running : Bool
  onAir : List CapabilityAdvertisement

/-- `publish_caps_v0_2`; `sent` says whether gossipsub had a peer to send to. -/
def publishCapsV02 (c : Ctx W) (caps : NodeCapabilities) (a : Announcer W) (clock : Clock)
    (listeners : List Multiaddr) (sent : Bool) : Announcer W :=
  let ad := ownAdvertisement c caps (unixNow clock.wall) listeners a.node.readiness.state
  if sent then
    { a with
      node := { a.node with readiness := a.node.readiness.markReady }
      onAir := a.onAir ++ [ad] }
  else a

/-- An arm of the event loop. -/
inductive Arm (W : Type)
  | node (s : Step W)
  | connectionEstablished
  | capsTick (clock : Clock) (listeners : List Multiaddr) (sent : Bool)
  | ctrlC

/-! ## The tracker -/

/-- A state the loop can be in: the miner neither degrades nor announces its end. -/
def Alive (s : ReadinessState) : Prop := s ≠ .initialised ∧ s ≠ .degraded ∧ s ≠ .stopped

theorem Alive.cases {s : ReadinessState} (h : Alive s) :
    s = .connected ∨ s = .listening ∨ s = .ready ∨ s = .active := by
  obtain ⟨hinit, hdeg, hstop⟩ := h
  cases s with
  | initialised => exact absurd rfl hinit
  | connected => exact Or.inl rfl
  | listening => exact Or.inr (Or.inl rfl)
  | ready => exact Or.inr (Or.inr (Or.inl rfl))
  | active => exact Or.inr (Or.inr (Or.inr rfl))
  | degraded => exact absurd rfl hdeg
  | stopped => exact absurd rfl hstop

theorem alive_of_eligible {s : ReadinessState} (h : s.isEligible = true) : Alive s := by
  refine ⟨?_, ?_, ?_⟩ <;> rintro rfl <;> cases h

/-- Sending an advertisement makes a living miner eligible. -/
theorem eligible_markReady {t : ReadinessTracker} (h : Alive t.state) :
    t.markReady.state.isEligible = true := by
  unfold ReadinessTracker.markReady
  rcases h.cases with heq | heq | heq | heq <;> rw [heq] <;> rfl

/-- So does executing a task. -/
theorem eligible_taskStarted {t : ReadinessTracker} (h : Alive t.state) :
    t.taskStarted.state.isEligible = true := by
  unfold ReadinessTracker.taskStarted
  rcases h.cases with heq | heq | heq | heq <;> rw [heq] <;> rfl

theorem isEligible_taskFinished (t : ReadinessTracker) :
    t.taskFinished.state.isEligible = t.state.isEligible := by
  unfold ReadinessTracker.taskFinished
  dsimp only
  split
  · cases t.state <;> rfl
  · rfl

theorem alive_taskFinished {t : ReadinessTracker} (h : Alive t.state) :
    Alive t.taskFinished.state := by
  unfold ReadinessTracker.taskFinished
  dsimp only
  split
  · rcases h.cases with heq | heq | heq | heq <;> rw [heq] <;>
      exact ⟨by decide, by decide, by decide⟩
  · exact h

theorem iterate_taskFinished (k : Nat) (t : ReadinessTracker) :
    (ReadinessTracker.taskFinished^[k] t).state.isEligible = t.state.isEligible ∧
      (Alive t.state → Alive (ReadinessTracker.taskFinished^[k] t).state) := by
  induction k generalizing t with
  | zero => exact ⟨rfl, id⟩
  | succ k ih =>
    rw [Function.iterate_succ_apply]
    obtain ⟨he, ha⟩ := ih t.taskFinished
    exact ⟨he.trans (isEligible_taskFinished t), fun h => ha (alive_taskFinished h)⟩

/-- A connection makes a miner that is not ready `Listening`, and changes no other. -/
theorem markListening_cases {t : ReadinessTracker} (h : Alive t.state) :
    t.markListening = t ∨
      (t.state.isEligible = false ∧ t.markListening.state = .listening) := by
  unfold ReadinessTracker.markListening
  rcases h.cases with heq | heq | heq | heq
  · exact Or.inr ⟨by rw [heq]; rfl, by rw [heq]; rfl⟩
  · exact Or.inl (by rw [heq]; rfl)
  · exact Or.inl (by rw [heq]; rfl)
  · exact Or.inl (by rw [heq]; rfl)

section Loop

variable [WeightArith W]

/-- One round of the loop; after Ctrl-C it is left. -/
def loopStep (c : Ctx W) (caps : NodeCapabilities) (a : Announcer W) (arm : Arm W) : Announcer W :=
  if a.running then
    match arm with
    | .node s => { a with node := step c a.node s }
    | .connectionEstablished =>
      { a with node := { a.node with readiness := a.node.readiness.markListening } }
    | .capsTick clock listeners sent => publishCapsV02 c caps a clock listeners sent
    | .ctrlC =>
      { a with node := { a.node with readiness := a.node.readiness.markStopped }, running := false }
  else a

/-! ## The tracker along a step -/

/-- What a step of the node does to the tracker: nothing, one execution, which also
publishes a result, or some finished tasks. -/
theorem readiness_step (c : Ctx W) (n : Node W) (s : Step W) :
    (step c n s).readiness = n.readiness ∨
      ((step c n s).readiness = n.readiness.taskStarted ∧
        ∃ r, .jobResult r ∈ (step c n s).outbox) ∨
      ∃ k, (step c n s).readiness = ReadinessTracker.taskFinished^[k] n.readiness := by
  obtain ⟨clock, action⟩ := s
  cases action with
  | gossip topic m =>
    cases topic with
    | tasks =>
      have hr := (admitSpec_frame c clock n m.data).readiness
      simp only [step, handleTasksMessage]
      cases ha : admitSpec c clock n m.data with
      | mk n₁ o =>
        rw [ha] at hr
        dsimp only at hr
        cases o with
        | none => exact Or.inl hr
        | some spec =>
          cases he : elected c n₁ spec with
          | false => simp [he, hr]
          | true =>
            refine Or.inr (Or.inl ?_)
            simp only [he, if_true, executeSpec, hr]
            exact ⟨trivial, _, List.mem_append_right _ (List.mem_singleton.mpr rfl)⟩
    | verify => exact Or.inl (handleVerifyMessage_frame c clock n m).readiness
    | caps => exact Or.inl rfl
    | stateDeltas => exact Or.inl rfl
  | finaliseTick =>
    refine Or.inr (Or.inr ⟨(finalisedResults c clock n).length, ?_⟩)
    simp only [step, runFinaliseTick, readiness_foldl_finaliseOne]
    exact List.foldl_const _ _ _
  | stateSyncResponse r =>
    refine Or.inl ?_
    simp only [step, applyStateSyncResponse]
    split <;> rfl
  | drain => exact Or.inl rfl
  | prune => exact Or.inl rfl

/-- What was published stays. -/
theorem mem_outbox_step (c : Ctx W) (n : Node W) (s : Step W) {o : Outbound W}
    (h : o ∈ n.outbox) : o ∈ (step c n s).outbox := by
  generalize hstep : step c n s = n'
  have heff := step_effect c n s
  rw [hstep] at heff
  cases heff with
  | quiet hq => rwa [hq.outbox]
  | opened adm hq => exact hq.outbox.symm ▸ h
  | executed exe hq => exact List.mem_append_left _ (hq.outbox.symm ▸ h)
  | voted adm hq => exact hq.outbox.symm ▸ h
  | ticked ht =>
    rw [(runFinaliseTick_blocks c s.clock n).2.2.2.2]
    exact List.mem_append_left _ h

/-! ## What is on the air -/

/-- The miner has executed a task. -/
def Worked (n : Node W) : Prop := ∃ r, .jobResult r ∈ n.outbox

/-- What a miner has put on the air. -/
structure Announcing (c : Ctx W) (caps : NodeCapabilities) (a : Announcer W) : Prop where
  alive : a.running = true → Alive a.node.readiness.state
  stepped : a.running = true → a.onAir ≠ [] → a.node.readiness.state.isEligible = true
  earned : a.running = true → a.node.readiness.state.isEligible = true →
    a.onAir ≠ [] ∨ Worked a.node
  built : ∀ ad ∈ a.onAir, ∃ now listeners readiness, Alive readiness ∧
    ad = ownAdvertisement c caps now listeners readiness
  first : ∀ ad, a.onAir.head? = some ad → ad.readiness.isEligible = true → Worked a.node
  later : ∀ ad ∈ a.onAir.tail, ad.readiness.isEligible = true

theorem Announcing.node {c : Ctx W} {caps : NodeCapabilities} {a : Announcer W}
    (h : Announcing c caps a) (hrun : a.running = true) (s : Step W) :
    Announcing c caps { a with node := step c a.node s } := by
  have hworked : Worked a.node → Worked (step c a.node s) :=
    fun ⟨r, hr⟩ => ⟨r, mem_outbox_step c a.node s hr⟩
  have hfirst : ∀ ad, a.onAir.head? = some ad → ad.readiness.isEligible = true →
      Worked (step c a.node s) := fun ad had he => hworked (h.first ad had he)
  rcases readiness_step c a.node s with hsame | ⟨hstart, r, hr⟩ | ⟨k, hfin⟩
  · refine { h with alive := ?_, stepped := ?_, earned := ?_, first := hfirst }
    · exact fun _ => hsame.symm ▸ h.alive hrun
    · exact fun _ => hsame.symm ▸ h.stepped hrun
    · intro _ he
      rw [hsame] at he
      exact (h.earned hrun he).imp_right hworked
  · have helig := eligible_taskStarted (h.alive hrun)
    rw [← hstart] at helig
    exact { h with
      alive := fun _ => alive_of_eligible helig
      stepped := fun _ _ => helig
      earned := fun _ _ => Or.inr ⟨r, hr⟩
      first := hfirst }
  · obtain ⟨he, ha⟩ := iterate_taskFinished k a.node.readiness
    rw [← hfin] at he ha
    refine { h with alive := ?_, stepped := ?_, earned := ?_, first := hfirst }
    · exact fun _ => ha (h.alive hrun)
    · exact fun _ hne => he.trans (h.stepped hrun hne)
    · intro _ helig
      exact (h.earned hrun (he.symm.trans helig)).imp_right hworked

omit [WeightArith W] in
theorem Announcing.listen {c : Ctx W} {caps : NodeCapabilities} {a : Announcer W}
    (h : Announcing c caps a) (hrun : a.running = true) :
    Announcing c caps
      { a with node := { a.node with readiness := a.node.readiness.markListening } } := by
  rcases markListening_cases (h.alive hrun) with hsame | ⟨hnot, hstate⟩
  · rw [hsame]
    exact h
  · refine { h with alive := ?_, stepped := ?_, earned := ?_ }
    · exact fun _ => hstate.symm ▸ ⟨by decide, by decide, by decide⟩
    · exact fun _ hne => absurd (h.stepped hrun hne) (by simp [hnot])
    · intro _ he
      rw [hstate] at he
      cases he

omit [WeightArith W] in
theorem Announcing.publish {c : Ctx W} {caps : NodeCapabilities} {a : Announcer W}
    (h : Announcing c caps a) (hrun : a.running = true) (clock : Clock)
    (listeners : List Multiaddr) (sent : Bool) :
    Announcing c caps (publishCapsV02 c caps a clock listeners sent) := by
  unfold publishCapsV02
  cases sent with
  | false => exact h
  | true =>
    have helig := eligible_markReady (h.alive hrun)
    refine
      { alive := fun _ => alive_of_eligible helig
        stepped := fun _ _ => helig
        earned := fun _ _ => Or.inl (by simp)
        built := ?_
        first := ?_
        later := ?_ }
    · intro ad had
      rcases List.mem_append.mp had with hold | hnew
      · exact h.built ad hold
      · exact ⟨_, _, _, h.alive hrun, List.mem_singleton.mp hnew⟩
    · intro ad had he
      cases hair : a.onAir with
      | nil =>
        -- the first advertisement carries the readiness before it was sent
        simp only [if_true, hair, List.nil_append, List.head?_cons, Option.some.injEq] at had
        subst had
        exact (h.earned hrun he).resolve_left fun hne => hne hair
      | cons ad₀ rest =>
        refine h.first ad ?_ he
        simpa [hair] using had
    · intro ad had
      cases hair : a.onAir with
      | nil => simp [hair] at had
      | cons ad₀ rest =>
        simp only [if_true, hair, List.cons_append, List.tail_cons, List.mem_append,
          List.mem_singleton] at had
        rcases had with hold | rfl
        · exact h.later ad (by rw [hair]; exact hold)
        · exact h.stepped hrun (by simp [hair])

/-- **What is on the air**, after any round of the loop. -/
theorem Announcing.loopStep {c : Ctx W} {caps : NodeCapabilities} {a : Announcer W}
    (h : Announcing c caps a) (arm : Arm W) : Announcing c caps (loopStep c caps a arm) := by
  unfold Miner.loopStep
  cases hrun : a.running with
  | false => exact h
  | true =>
    rw [if_pos rfl]
    cases arm with
    | node s =>
      have hnode := h.node hrun s
      rwa [hrun] at hnode
    | connectionEstablished =>
      have hlisten := h.listen hrun
      rwa [hrun] at hlisten
    | capsTick clock listeners sent =>
      exact h.publish hrun clock listeners sent
    | ctrlC =>
      exact { h with
        alive := fun hf => by cases hf
        stepped := fun hf => by cases hf
        earned := fun hf => by cases hf }

/-! ## The miner that listens -/

omit [WeightArith W] in
/-- The advertisement a message of `parseh.caps.v1` is filed as, if any. -/
def filedAd (x : Externals W) (clock : Clock) (m : Message) : Option CapabilityAdvertisement :=
  match x.advertisementCbor.decode m.data with
  | some ad => some ad
  | none =>
    match x.legacyCapsJson m.data, m.source with
    | some caps, some source => some (legacyAdvertisement source caps (unixNow clock.wall))
    | _, _ => none

omit [WeightArith W] in
theorem handleCapsMessage_eq (x : Externals W) (clock : Clock) (reg : PeerRegistry) (m : Message) :
    handleCapsMessage x clock reg m =
      match filedAd x clock m with
      | some ad => reg.hear x ad
      | none => reg := by
  unfold handleCapsMessage filedAd
  cases x.advertisementCbor.decode m.data with
  | some ad => rfl
  | none => cases x.legacyCapsJson m.data <;> cases m.source <;> rfl

/-- What a step of the node does to its registry. -/
theorem registry_cases (d : Ctx W) (n : Node W) (s : Step W) :
    (s.action ≠ .prune ∧ (step d n s).peerRegistry = n.peerRegistry) ∨
      (∃ m ad, s.action = .gossip .caps m ∧ filedAd d.x s.clock m = some ad ∧
        (step d n s).peerRegistry = n.peerRegistry.hear d.x ad) ∨
      (s.action = .prune ∧
        (step d n s).peerRegistry = (n.peerRegistry.pruneExpired (unixNow s.clock.wall)).2) := by
  obtain ⟨clock, action⟩ := s
  by_cases hcaps : ∃ m, action = .gossip .caps m
  · obtain ⟨m, rfl⟩ := hcaps
    have heq := handleCapsMessage_eq d.x clock n.peerRegistry m
    cases hf : filedAd d.x clock m with
    | none => exact Or.inl ⟨nofun, by rw [hf] at heq; exact heq⟩
    | some ad => exact Or.inr (Or.inl ⟨m, ad, rfl, hf, by rw [hf] at heq; exact heq⟩)
  · by_cases hprune : action = .prune
    · subst hprune
      exact Or.inr (Or.inr ⟨rfl, rfl⟩)
    · exact Or.inl ⟨hprune,
        peerRegistry_step d n ⟨clock, action⟩ (fun m hm => hcaps ⟨m, hm⟩) hprune⟩

/-- Two miners: one announces itself, the other listens. -/
structure Meeting (W : Type) where
  announcer : Announcer W
  listener : Node W

inductive Move (W : Type)
  | announcer (arm : Arm W)
  | listener (s : Step W)

def meet (c d : Ctx W) (caps : NodeCapabilities) (w : Meeting W) : Move W → Meeting W
  | .announcer arm => { w with announcer := loopStep c caps w.announcer arm }
  | .listener s => { w with listener := step d w.listener s }

/-- Nobody speaks for the announcer: what is filed under its name it has sent. -/
def Genuine (c d : Ctx W) (w : Meeting W) : Move W → Prop
  | .announcer _ => True
  | .listener s => ∀ m ad, s.action = .gossip .caps m → filedAd d.x s.clock m = some ad →
      ad.peerId = c.localPeerId → ad ∈ w.announcer.onAir

/-- The other ed25519 implementation reads the key. -/
def KeyReadable (c d : Ctx W) : Prop :=
  c.verifyingKey.asBytes ≠ Array32.replicate 0 ∧ d.x.isPoint c.verifyingKey.asBytes = true

/-- What the listener holds of the announcer is from the air, and it knows the key. -/
structure Heard (c : Ctx W) (w : Meeting W) : Prop where
  held : ∀ ad ∈ w.listener.peerRegistry.ads.rows, ad.peerId = c.localPeerId →
    ad ∈ w.announcer.onAir
  known : ∀ ad ∈ w.listener.peerRegistry.ads.rows, ad.peerId = c.localPeerId →
    ∃ id, w.listener.peerRegistry.identities.find? c.localPeerId = some id

theorem mem_onAir_loopStep (c : Ctx W) (caps : NodeCapabilities) (a : Announcer W) (arm : Arm W)
    {ad : CapabilityAdvertisement} (h : ad ∈ a.onAir) : ad ∈ (loopStep c caps a arm).onAir := by
  unfold loopStep
  split
  · cases arm with
    | capsTick clock listeners sent =>
      cases sent with
      | true => exact List.mem_append_left _ h
      | false => exact h
    | _ => exact h
  · exact h

omit [WeightArith W] in
theorem verifyingKey_ownAdvertisement {c d : Ctx W} (hkey : KeyReadable c d)
    (caps : NodeCapabilities) (now : UInt64) (listeners : List Multiaddr)
    (readiness : ReadinessState) :
    (ownAdvertisement c caps now listeners readiness).verifyingKey d.x = some c.verifyingKey := by
  unfold CapabilityAdvertisement.verifyingKey
  exact (if_neg hkey.1).trans (if_pos hkey.2)

/-- **Nothing is made up.**  One genuine move. -/
theorem Heard.meet {c d : Ctx W} {caps : NodeCapabilities} {w : Meeting W} (hkey : KeyReadable c d)
    (ha : Announcing c caps w.announcer) (hw : Heard c w) {mv : Move W} (hg : Genuine c d w mv) :
    Heard c (meet c d caps w mv) := by
  cases mv with
  | announcer arm =>
    exact { hw with held := fun ad had hp => mem_onAir_loopStep c caps _ arm (hw.held ad had hp) }
  | listener s =>
    rcases registry_cases d w.listener s with
      ⟨-, hsame⟩ | ⟨m, ad, hact, hfiled, hnew⟩ | ⟨-, hprune⟩
    · exact { held := fun ad => by rw [Miner.meet, hsame]; exact hw.held ad
              known := fun ad => by rw [Miner.meet, hsame]; exact hw.known ad }
    · have hair := hg m ad hact hfiled
      constructor
      · intro ad' had' hp
        rw [Miner.meet, hnew] at had'
        rcases PeerRegistry.mem_ads_hear.mp had' with ⟨hold, -⟩ | rfl
        · exact hw.held ad' hold hp
        · exact hair hp
      · intro ad' had' hp
        rw [Miner.meet, hnew] at had' ⊢
        by_cases hname : ad.peerId = c.localPeerId
        · obtain ⟨now, listeners, readiness, -, rfl⟩ := ha.built ad (hair hname)
          have hread := verifyingKey_ownAdvertisement hkey caps now listeners readiness
          exact ⟨_, PeerRegistry.identities_hear hread w.listener.peerRegistry⟩
        · rw [PeerRegistry.identities_hear_of_ne hname]
          rcases PeerRegistry.mem_ads_hear.mp had' with ⟨hold, -⟩ | rfl
          · exact hw.known ad' hold hp
          · exact absurd hp hname
    · constructor
      · intro ad' had' hp
        rw [Miner.meet, hprune] at had'
        exact hw.held ad' (Keyed.mem_retain.mp had').1 hp
      · intro ad' had' hp
        rw [Miner.meet, hprune] at had' ⊢
        exact hw.known ad' (Keyed.mem_retain.mp had').1 hp

/-! ## Who is listed -/

/-- The peer is offered for the service. -/
def Listed (n : Node W) (kind : ServiceKind) (p : PeerId) : Prop :=
  ∃ id ∈ n.peerRegistry.readyPeersForService kind, id.peerId = p

omit [WeightArith W] in
/-- With its key known, a peer is listed by the advertisement that is held of it. -/
theorem listed_iff_held {c : Ctx W} {w : Meeting W} (hw : Heard c w) (kind : ServiceKind) :
    Listed w.listener kind c.localPeerId ↔
      ∃ ad ∈ w.listener.peerRegistry.ads.rows, ad.peerId = c.localPeerId ∧
        kind ∈ ad.services ∧ ad.readiness.isEligible = true := by
  constructor
  · rintro ⟨id, hid, hp⟩
    obtain ⟨ad, had, hkind, helig, hfind⟩ := PeerRegistry.mem_readyPeersForService.mp hid
    have hsame := (Keyed.find?_eq_some_iff.mp hfind).2
    exact ⟨ad, had, hsame.symm.trans hp, hkind, helig⟩
  · rintro ⟨ad, had, hp, hkind, helig⟩
    obtain ⟨id, hfind⟩ := hw.known ad had hp
    have hid := (Keyed.find?_eq_some_iff.mp hfind).2
    rw [← hp] at hfind
    exact ⟨id, PeerRegistry.mem_readyPeersForService.mpr ⟨ad, had, hkind, helig, hfind⟩, hid⟩

/-- Who is listed, by what is on the air and what of it the listener holds. -/
structure MembershipExact (c : Ctx W) (caps : NodeCapabilities) (w : Meeting W) : Prop where
  listed : ∀ kind, Listed w.listener kind c.localPeerId ↔
    kind ∈ advertisedServices caps ∧ ∃ ad ∈ w.announcer.onAir,
      ad ∈ w.listener.peerRegistry.ads.rows ∧ ad.readiness.isEligible = true
  /-- The first advertisement lists only a miner that has executed a task. -/
  first : ∀ ad, w.announcer.onAir.head? = some ad → ad.readiness.isEligible = true →
    Worked w.announcer.node
  later : ∀ ad ∈ w.announcer.onAir.tail, ad.readiness.isEligible = true
  /-- The end is not announced. -/
  silent : ∀ ad ∈ w.announcer.onAir, ad.readiness ≠ .degraded ∧ ad.readiness ≠ .stopped
  noExit : ∀ id ∈ w.listener.peerRegistry.readyPeersWithExternalInternet,
    id.peerId ≠ c.localPeerId

omit [WeightArith W] in
theorem membershipExact_of_heard {c : Ctx W} {caps : NodeCapabilities} {w : Meeting W}
    (ha : Announcing c caps w.announcer) (hw : Heard c w) : MembershipExact c caps w where
  listed kind := by
    rw [listed_iff_held hw]
    constructor
    · rintro ⟨ad, had, hp, hkind, helig⟩
      have hair := hw.held ad had hp
      obtain ⟨now, listeners, readiness, -, rfl⟩ := ha.built ad hair
      exact ⟨hkind, _, hair, had, helig⟩
    · rintro ⟨hkind, ad, hair, had, helig⟩
      obtain ⟨now, listeners, readiness, -, rfl⟩ := ha.built ad hair
      exact ⟨_, had, rfl, hkind, helig⟩
  first := ha.first
  later := ha.later
  silent ad hair := by
    obtain ⟨now, listeners, readiness, halive, rfl⟩ := ha.built ad hair
    exact halive.2
  noExit id hid hp := by
    obtain ⟨ad, had, hext, -, hfind⟩ := PeerRegistry.mem_readyPeers.mp hid
    have hname : ad.peerId = c.localPeerId := (Keyed.find?_eq_some_iff.mp hfind).2.symm.trans hp
    obtain ⟨now, listeners, readiness, -, rfl⟩ := ha.built ad (hw.held ad had hname)
    cases hext

/-- A miner that starts beside another one. -/
def joining (c : Ctx W) (clock : Clock) (listeners : List Multiaddr) (shared : SharedState)
    (other : Node W) : Meeting W :=
  ⟨⟨Node.start c clock listeners shared, true, []⟩, other⟩

omit [WeightArith W] in
theorem announcing_start (c : Ctx W) (caps : NodeCapabilities) (clock : Clock)
    (listeners : List Multiaddr) (shared : SharedState) :
    Announcing c caps ⟨Node.start c clock listeners shared, true, []⟩ where
  alive _ := ⟨nofun, nofun, nofun⟩
  stepped _ h := absurd rfl h
  earned _ h := by cases h
  built _ h := by cases h
  first _ h := by cases h
  later _ h := by cases h

/-- Both invariants, along a genuine move. -/
theorem heard_meet {c d : Ctx W} {caps : NodeCapabilities} (hkey : KeyReadable c d)
    {w : Meeting W} {mv : Move W} (hg : Genuine c d w mv)
    (hw : Announcing c caps w.announcer ∧ Heard c w) :
    Announcing c caps (meet c d caps w mv).announcer ∧ Heard c (meet c d caps w mv) := by
  refine ⟨?_, hw.2.meet hkey hw.1 hg⟩
  cases mv with
  | announcer arm => exact hw.1.loopStep arm
  | listener s => exact hw.1

/-- They hold in every genuine run from the start. -/
theorem heard_run {c d : Ctx W} (caps : NodeCapabilities) (hkey : KeyReadable c d) (clock : Clock)
    (listeners : List Multiaddr) (shared : SharedState) {other : Node W}
    (hnew : ∀ ad ∈ other.peerRegistry.ads.rows, ad.peerId ≠ c.localPeerId) {mvs : List (Move W)}
    (hg : Guarded (meet c d caps) (Genuine c d) (joining c clock listeners shared other) mvs) :
    Announcing c caps
        (run (meet c d caps) (joining c clock listeners shared other) mvs).announcer ∧
      Heard c (run (meet c d caps) (joining c clock listeners shared other) mvs) := by
  refine hg.invariant (I := fun w => Announcing c caps w.announcer ∧ Heard c w)
    (fun w mv hgen hw => heard_meet hkey hgen hw) ⟨?_, ?_⟩
  · exact announcing_start c caps clock listeners shared
  · exact ⟨fun ad had hp => absurd hp (hnew ad had), fun ad had hp => absurd hp (hnew ad had)⟩

/-- **Joining.**  However the two miners and the gossip between them go on, a miner is
listed exactly for its services and by the advertisement that is held of it: not by its
first one, unless it has executed a task, by every later one, and also after it has
stopped. -/
theorem membership_exact {c d : Ctx W} (caps : NodeCapabilities) (hkey : KeyReadable c d)
    (clock : Clock) (listeners : List Multiaddr) (shared : SharedState) {other : Node W}
    (hnew : ∀ ad ∈ other.peerRegistry.ads.rows, ad.peerId ≠ c.localPeerId) {mvs : List (Move W)}
    (hg : Guarded (meet c d caps) (Genuine c d) (joining c clock listeners shared other) mvs) :
    MembershipExact c caps
      (run (meet c d caps) (joining c clock listeners shared other) mvs) := by
  obtain ⟨ha, hw⟩ := heard_run caps hkey clock listeners shared hnew hg
  exact membershipExact_of_heard ha hw

/-! ## Leaving -/

/-- The listener does not hear of the announcer. -/
def Unheard (c d : Ctx W) : Move W → Prop
  | .announcer _ => True
  | .listener s => ∀ m ad, s.action = .gossip .caps m → filedAd d.x s.clock m = some ad →
      ad.peerId ≠ c.localPeerId

/-- `isExpired` in seconds; the saturation makes no difference. -/
theorem isExpired_eq_false_iff (ad : CapabilityAdvertisement) (now : UInt64) :
    isExpired ad now = false ↔ now.toNat ≤ ad.signedAt.toNat + ad.ttlSeconds.toNat := by
  have hnow := now.toNat_lt
  have hsat : (saturatingAddSecs ad.signedAt ad.ttlSeconds).toNat =
      min (ad.signedAt.toNat + ad.ttlSeconds.toNat) (2 ^ 64 - 1) := by
    rw [saturatingAddSecs, UInt64.toNat_ofNat', Nat.mod_eq_of_lt (by omega)]
  rw [isExpired, decide_eq_false_iff_not, UInt64.lt_iff_toNat_lt, hsat]
  omega

/-- What one unheard move leaves of the advertisements of the peer. -/
theorem mem_ads_meet_of_unheard {c d : Ctx W} {caps : NodeCapabilities} {mv : Move W}
    (hun : Unheard c d mv) (w : Meeting W) {ad : CapabilityAdvertisement}
    (hp : ad.peerId = c.localPeerId) :
    ad ∈ (meet c d caps w mv).listener.peerRegistry.ads.rows ↔
      ad ∈ w.listener.peerRegistry.ads.rows ∧
        ∀ clock, mv = .listener ⟨clock, .prune⟩ → isExpired ad (unixNow clock.wall) = false := by
  cases mv with
  | announcer arm => exact ⟨fun h => ⟨h, nofun⟩, And.left⟩
  | listener s =>
    obtain ⟨clock, action⟩ := s
    rcases registry_cases d w.listener ⟨clock, action⟩ with
      ⟨hact, hsame⟩ | ⟨m, ad', hact, hfiled, hnew⟩ | ⟨hact, hprune⟩
    · rw [meet, hsame]
      exact ⟨fun h => ⟨h, fun t heq => by cases heq; exact absurd rfl hact⟩, And.left⟩
    · have hne : ad.peerId ≠ ad'.peerId := hp.trans_ne (hun m ad' hact hfiled).symm
      rw [meet, hnew, PeerRegistry.mem_ads_hear]
      constructor
      · rintro (⟨hold, -⟩ | rfl)
        · exact ⟨hold, fun t heq => by cases heq; cases hact⟩
        · exact absurd rfl hne
      · exact fun h => Or.inl ⟨h.1, hne⟩
    · cases hact
      rw [meet, hprune]
      refine Keyed.mem_retain.trans (and_congr_right fun _ => ?_)
      rw [Bool.not_eq_true']
      exact ⟨fun h t heq => by cases heq; exact h, fun h => h clock rfl⟩

/-- The advertisements of an unheard peer stay until a prune finds them expired. -/
theorem mem_ads_unheard {c d : Ctx W} {caps : NodeCapabilities} {bs : List (Move W)}
    (hun : ∀ mv ∈ bs, Unheard c d mv) (w : Meeting W) {ad : CapabilityAdvertisement}
    (hp : ad.peerId = c.localPeerId) :
    ad ∈ (run (meet c d caps) w bs).listener.peerRegistry.ads.rows ↔
      ad ∈ w.listener.peerRegistry.ads.rows ∧
        ∀ clock, .listener ⟨clock, .prune⟩ ∈ bs → isExpired ad (unixNow clock.wall) = false := by
  induction bs generalizing w with
  | nil => exact ⟨fun h => ⟨h, nofun⟩, And.left⟩
  | cons mv bs ih =>
    obtain ⟨hmv, hbs⟩ := List.forall_mem_cons.mp hun
    rw [run_cons, ih hbs, mem_ads_meet_of_unheard hmv w hp, and_assoc]
    refine and_congr_right fun _ => ?_
    constructor
    · rintro ⟨hnow, hlater⟩ clock hmem
      rcases List.mem_cons.mp hmem with heq | hmem
      · exact hnow clock heq.symm
      · exact hlater clock hmem
    · intro h
      exact ⟨fun clock heq => h clock (heq ▸ List.mem_cons_self),
        fun clock hmem => h clock (List.mem_cons_of_mem _ hmem)⟩

theorem heard_unheard {c d : Ctx W} {caps : NodeCapabilities} (hkey : KeyReadable c d)
    {bs : List (Move W)} (hun : ∀ mv ∈ bs, Unheard c d mv) {w : Meeting W}
    (hw : Announcing c caps w.announcer ∧ Heard c w) :
    Announcing c caps (run (meet c d caps) w bs).announcer ∧
      Heard c (run (meet c d caps) w bs) := by
  have hg : Guarded (meet c d caps) (fun _ => Unheard c d) w bs := (guarded_const w bs).mpr hun
  refine hg.invariant (I := fun w => Announcing c caps w.announcer ∧ Heard c w)
    (fun w mv hmv hw => heard_meet hkey ?_ hw) hw
  cases mv with
  | announcer arm => trivial
  | listener s => exact fun m ad hact hfiled hp => absurd hp (hmv m ad hact hfiled)

theorem listed_unheard_iff {c d : Ctx W} {caps : NodeCapabilities} (hkey : KeyReadable c d)
    {w : Meeting W} (hw : Announcing c caps w.announcer ∧ Heard c w) {bs : List (Move W)}
    (hun : ∀ mv ∈ bs, Unheard c d mv) (kind : ServiceKind) :
    Listed (run (meet c d caps) w bs).listener kind c.localPeerId ↔
      Listed w.listener kind c.localPeerId ∧
        ∀ clock, .listener ⟨clock, .prune⟩ ∈ bs → ∀ ad ∈ w.listener.peerRegistry.ads.rows,
          ad.peerId = c.localPeerId → (unixNow clock.wall).toNat ≤ ad.signedAt.toNat + 300 := by
  rw [listed_iff_held (heard_unheard hkey hun hw).2, listed_iff_held hw.2]
  have hfresh : ∀ now, ∀ ad ∈ w.listener.peerRegistry.ads.rows, ad.peerId = c.localPeerId →
      (isExpired ad now = false ↔ now.toNat ≤ ad.signedAt.toNat + 300) := by
    intro now ad had hp
    obtain ⟨signedAt, listeners, readiness, -, rfl⟩ := hw.1.built ad (hw.2.held ad had hp)
    exact isExpired_eq_false_iff _ _
  constructor
  · rintro ⟨ad, had, hp, hkind, helig⟩
    obtain ⟨hold, hlive⟩ := (mem_ads_unheard hun w hp).mp had
    refine ⟨⟨ad, hold, hp, hkind, helig⟩, fun clock hmem ad' had' hp' => ?_⟩
    -- the listener holds one advertisement of a peer
    obtain rfl := Keyed.eq_of_key_eq _ had' hold (hp'.trans hp.symm)
    exact (hfresh _ ad' hold hp).mp (hlive clock hmem)
  · rintro ⟨⟨ad, hold, hp, hkind, helig⟩, hlive⟩
    refine ⟨ad, (mem_ads_unheard hun w hp).mpr ⟨hold, fun clock hmem => ?_⟩, hp, hkind, helig⟩
    exact (hfresh _ ad hold hp).mpr (hlive clock hmem ad hold hp)

/-- **Leaving.**  A miner that is not heard of any more, because it has stopped or was cut
off, stays listed until the other prunes more than 300 seconds after the advertisement it
holds, and no longer. -/
theorem departure_exact {c d : Ctx W} (caps : NodeCapabilities) (hkey : KeyReadable c d)
    (clock : Clock) (listeners : List Multiaddr) (shared : SharedState) {other : Node W}
    (hnew : ∀ ad ∈ other.peerRegistry.ads.rows, ad.peerId ≠ c.localPeerId) {mvs : List (Move W)}
    (hg : Guarded (meet c d caps) (Genuine c d) (joining c clock listeners shared other) mvs)
    {bs : List (Move W)} (hun : ∀ mv ∈ bs, Unheard c d mv) (kind : ServiceKind) :
    let w := run (meet c d caps) (joining c clock listeners shared other) mvs
    Listed (run (meet c d caps) w bs).listener kind c.localPeerId ↔
      Listed w.listener kind c.localPeerId ∧
        ∀ t, .listener ⟨t, .prune⟩ ∈ bs → ∀ ad ∈ w.listener.peerRegistry.ads.rows,
          ad.peerId = c.localPeerId → (unixNow t.wall).toNat ≤ ad.signedAt.toNat + 300 :=
  listed_unheard_iff hkey (heard_run caps hkey clock listeners shared hnew hg) hun kind

end Loop

/-! ## A relay joins -/

def relayCaps : NodeCapabilities := ⟨true, false, 0, [], 100⟩

/-- The first advertisement of peer 1, and the second. -/
def relayAd (second : Bool) : CapabilityAdvertisement where
  peerId := peerOf 1
  version := 2
  services := [.relay]
  inference := none
  relay := some ⟨100, []⟩
  storage := none
  networkAddress := "/ip4/0.0.0.0/tcp/0"
  signedAt := if second then 60 else 0
  ttlSeconds := 300
  verifyingKeyBytes := Array32.replicate 1
  reachableAddrs := []
  readiness := if second then .ready else .connected
  hasExternalInternet := false
  bandwidthMbpsExternal := none

def meetingExternals : Externals ℚ :=
  Externals.ofTables [] [] [] [(adBytes 1, relayAd false), (adBytes 2, relayAd true)]

def joinerCtx : Ctx ℚ := ⟨meetingExternals, peerOf 1, keyOf 1, (keyOf 1).verifyingKey⟩

/-- Peer 9 listens. -/
def listenerCtx : Ctx ℚ := smallCtx meetingExternals

def relayStart : Meeting ℚ :=
  joining joinerCtx ⟨0, 0⟩ [] .empty (smallStart meetingExternals)

/-- Two rounds of advertisements, and the listener gets one of them after the end. -/
def joinMoves (second : Bool) : List (Move ℚ) :=
  [.announcer (.capsTick ⟨0, 0⟩ [] true), .announcer (.capsTick ⟨fromSecs 60, 0⟩ [] true),
    .announcer .ctrlC,
    .listener (atSecs 60
      (.gossip .caps ⟨some (peerOf 1), adBytes (if second then 2 else 1)⟩))]

def relayMet (second : Bool) : Meeting ℚ :=
  run (meet joinerCtx listenerCtx relayCaps) relayStart (joinMoves second)

theorem guarded_joinMoves (second : Bool) :
    Guarded (meet joinerCtx listenerCtx relayCaps) (Genuine joinerCtx listenerCtx) relayStart
      (joinMoves second) := by
  refine ⟨trivial, trivial, trivial, ?_, trivial⟩
  intro m ad hact hfiled _
  cases hact
  have hread : filedAd listenerCtx.x ⟨fromSecs 60, fromSecs 60⟩
      ⟨some (peerOf 1), adBytes (if second then 2 else 1)⟩ = some (relayAd second) := by
    cases second <;> decide +kernel
  obtain rfl := Option.some.inj (hread.symm.trans hfiled)
  cases second <;> decide +kernel

theorem keyReadable_relay : KeyReadable joinerCtx listenerCtx := ⟨by decide, rfl⟩

theorem listener_fresh : ∀ ad ∈ (smallStart meetingExternals).peerRegistry.ads.rows,
    ad.peerId ≠ joinerCtx.localPeerId := by decide

theorem relay_listed_by_second :
    ¬ Listed (relayMet false).listener .relay (peerOf 1) ∧
      Listed (relayMet true).listener .relay (peerOf 1) := by
  have hfirst := membership_exact relayCaps keyReadable_relay ⟨0, 0⟩ [] .empty listener_fresh
    (guarded_joinMoves false)
  have hsecond := membership_exact relayCaps keyReadable_relay ⟨0, 0⟩ [] .empty listener_fresh
    (guarded_joinMoves true)
  constructor
  · intro hlisted
    obtain ⟨-, ad, -, had, helig⟩ := (hfirst.listed .relay).mp hlisted
    have hnot : ∀ ad ∈ (relayMet false).listener.peerRegistry.ads.rows,
        ad.readiness.isEligible = false := by decide +kernel
    exact absurd helig (by simp [hnot ad had])
  · refine (hsecond.listed .relay).mpr ⟨by decide, relayAd true, ?_, ?_, rfl⟩
    · show relayAd true ∈ (relayMet true).announcer.onAir
      decide +kernel
    · show relayAd true ∈ (relayMet true).listener.peerRegistry.ads.rows
      decide +kernel

theorem unheard_prune (t : Nat) :
    ∀ mv ∈ [Move.listener (atSecs t .prune)], Unheard joinerCtx listenerCtx mv := by
  simp [Unheard, atSecs]

/-- The stopped relay is listed after a prune at 360 seconds, and not at 361. -/
theorem relay_leaves_after_ttl :
    Listed (run (meet joinerCtx listenerCtx relayCaps) (relayMet true)
        [.listener (atSecs 360 .prune)]).listener .relay (peerOf 1) ∧
      ¬ Listed (run (meet joinerCtx listenerCtx relayCaps) (relayMet true)
        [.listener (atSecs 361 .prune)]).listener .relay (peerOf 1) := by
  have hheld : ∀ ad ∈ (relayMet true).listener.peerRegistry.ads.rows, ad = relayAd true := by
    decide +kernel
  have hmem : relayAd true ∈ (relayMet true).listener.peerRegistry.ads.rows := by decide +kernel
  constructor
  · refine (departure_exact relayCaps keyReadable_relay ⟨0, 0⟩ [] .empty listener_fresh
      (guarded_joinMoves true) (unheard_prune 360) .relay).mpr ⟨?_, ?_⟩
    · show Listed (relayMet true).listener .relay (peerOf 1)
      unfold Listed
      decide +kernel
    · intro clock hclock ad had _
      obtain rfl := hheld ad had
      cases List.mem_singleton.mp hclock
      decide +kernel
  · intro hlisted
    obtain ⟨-, hlive⟩ := (departure_exact relayCaps keyReadable_relay ⟨0, 0⟩ [] .empty
      listener_fresh (guarded_joinMoves true) (unheard_prune 361) .relay).mp hlisted
    have hlate := hlive ⟨fromSecs 361, fromSecs 361⟩ (List.mem_singleton.mpr rfl) (relayAd true)
      hmem rfl
    revert hlate
    decide +kernel

end Parseh.Miner
