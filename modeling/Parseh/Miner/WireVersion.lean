import Parseh.Miner.Finalise
import Parseh.Miner.StateSync

/-!
# Messages of another wire version

Every message carries `wire_version` inside its signed bytes, and a node is to
drop a version it does not speak.  The six message types check their signatures
each in its own way: the two sync envelopes compare the version first, the other
four only verify, so a genuine signature carries any version past them.

* `verifySignature_eq_ok_iff`: what `verify_signature` of each type checks;
* `dropped_of_not_acted`: an inbound message the node does not go on with leaves
  everything but the buffer as it was;
* `ownVersion_iff`: the node goes on with its own version only, exactly when no
  registered peer has signed another one and no unknown responder sends it.
-/

namespace Parseh.Miner

open Parseh.Lib Parseh.Wire Parseh.Core Parseh.Shared

variable {W : Type}

/-! ## The six signed messages -/

inductive SignedMessage (W : Type)
  | spec (s : JobSpec)
  | result (r : JobResult)
  | verification (v : JobVerification)
  | outcome (o : JobOutcome W)
  | syncRequest (q : StateSyncRequest)
  | syncResponse (r : StateSyncResponse W)
  deriving DecidableEq

namespace SignedMessage

def wireVersion : SignedMessage W → UInt32
  | .spec s => s.wireVersion
  | .result r => r.wireVersion
  | .verification v => v.wireVersion
  | .outcome o => o.wireVersion
  | .syncRequest q => q.wireVersion
  | .syncResponse r => r.wireVersion

/-- The peer the message names as its author. -/
def signer : SignedMessage W → PeerId
  | .spec s => s.submitter
  | .result r => r.executor
  | .verification v => v.verifier
  | .outcome o => o.observedBy
  | .syncRequest q => q.requester
  | .syncResponse r => r.responder

def signature : SignedMessage W → Bytes
  | .spec s => s.signature
  | .result r => r.signature
  | .verification v => v.signature
  | .outcome o => o.signature
  | .syncRequest q => q.signature
  | .syncResponse r => r.signature

/-- The bytes a signature is made over. -/
def signingInput (x : Externals W) : SignedMessage W → Bytes
  | .spec s => x.specCbor.encode { s with signature := [] }
  | .result r => x.resultCbor.encode { r with signature := [] }
  | .verification v => x.verificationCbor.encode { v with signature := [] }
  | .outcome o => x.outcomeCbor.encode { o with signature := [] }
  | .syncRequest q => x.syncRequestCbor.encode { q with signature := [] }
  | .syncResponse r => x.syncResponseCbor.encode { r with signature := [] }

def verifySignature (x : Externals W) (key : VerifyingKey) :
    SignedMessage W → Except SignError Unit
  | .spec s => s.verifySignature x key
  | .result r => r.verifySignature x key
  | .verification v => v.verifySignature x key
  | .outcome o => o.verifySignature x key
  | .syncRequest q => q.verifySignature x key
  | .syncResponse r => r.verifySignature x key

/-- Is it one of the two envelopes of the sync protocol? -/
def isSync : SignedMessage W → Bool
  | .syncRequest _ | .syncResponse _ => true
  | _ => false

/-- The signature has its length and verifies over the signed bytes. -/
def SignedUnder (x : Externals W) (key : VerifyingKey) (m : SignedMessage W) : Prop :=
  m.signature.length = 64 ∧ x.verify key (m.signingInput x) m.signature = .ok ()

theorem verifyBytes_eq_ok_iff (x : Externals W) (key : VerifyingKey) (bytes sig : Bytes) :
    verifyBytes x key bytes sig = .ok () ↔ sig.length = 64 ∧ x.verify key bytes sig = .ok () := by
  unfold verifyBytes
  split
  · next hlen => exact ⟨fun h => (nomatch h), fun h => absurd h.1 hlen⟩
  · next hlen =>
    split
    · next hv => exact ⟨fun _ => ⟨not_not.mp hlen, hv⟩, fun _ => rfl⟩
    · next hv =>
      refine ⟨fun h => (nomatch h), fun h => ?_⟩
      rw [h.2] at hv
      cases hv

/-- A type that does not look at its version. -/
private theorem unversioned_eq_ok_iff {r : Except SignError Unit} {P Q : Prop}
    (h : r = .ok () ↔ P) : r = .ok () ↔ P ∧ (false = true → Q) :=
  h.trans ⟨fun hp => ⟨hp, fun hf => nomatch hf⟩, And.left⟩

/-- A type that checks its version before the signature. -/
private theorem versioned_eq_ok_iff {version : UInt32} {r : Except SignError Unit} {P : Prop}
    (h : r = .ok () ↔ P) :
    (if version ≠ Wire.wireVersion then .error (wireVersionMismatch version) else r) = .ok () ↔
      P ∧ (true = true → version = Wire.wireVersion) := by
  split
  · next hv => exact ⟨fun h => (nomatch h), fun h => absurd (h.2 rfl) hv⟩
  · next hv => exact ⟨fun h' => ⟨h.mp h', fun _ => not_not.mp hv⟩, fun h' => h.mpr h'.1⟩

/-- Only the sync envelopes check their version. -/
theorem verifySignature_eq_ok_iff (x : Externals W) (key : VerifyingKey) (m : SignedMessage W) :
    m.verifySignature x key = .ok () ↔
      m.SignedUnder x key ∧ (m.isSync = true → m.wireVersion = Wire.wireVersion) := by
  cases m with
  | spec s => exact unversioned_eq_ok_iff (verifyBytes_eq_ok_iff x key _ s.signature)
  | result r => exact unversioned_eq_ok_iff (verifyBytes_eq_ok_iff x key _ r.signature)
  | verification v => exact unversioned_eq_ok_iff (verifyBytes_eq_ok_iff x key _ v.signature)
  | outcome o => exact unversioned_eq_ok_iff (verifyBytes_eq_ok_iff x key _ o.signature)
  | syncRequest q => exact versioned_eq_ok_iff (verifyBytes_eq_ok_iff x key _ q.signature)
  | syncResponse r => exact versioned_eq_ok_iff (verifyBytes_eq_ok_iff x key _ r.signature)

/-- The check every handler makes: the signer is known and the signature holds. -/
def authentic (x : Externals W) (reg : PeerRegistry) (m : SignedMessage W) : Bool :=
  match reg.verifyingKey m.signer with
  | some key => (m.verifySignature x key).isOk
  | none => false

/-- A registered peer has signed the message. -/
def Genuine (x : Externals W) (reg : PeerRegistry) (m : SignedMessage W) : Prop :=
  ∃ key, reg.verifyingKey m.signer = some key ∧ m.SignedUnder x key

theorem isOk_iff {E : Type} {r : Except E Unit} : r.isOk = true ↔ r = .ok () := by
  cases r <;> simp [Except.isOk, Except.toBool]

theorem authentic_iff (x : Externals W) (reg : PeerRegistry) (m : SignedMessage W) :
    m.authentic x reg = true ↔
      m.Genuine x reg ∧ (m.isSync = true → m.wireVersion = Wire.wireVersion) := by
  unfold authentic Genuine
  cases hk : reg.verifyingKey m.signer with
  | none => simp
  | some key => simp [isOk_iff, verifySignature_eq_ok_iff]

end SignedMessage

/-! ## The inbound handlers -/

/-- What reaches a handler.  The two sync messages are decoded by libp2p before. -/
inductive Inbound (W : Type)
  | task (data : Bytes)
  | jobResult (body : Bytes)
  | verification (body : Bytes)
  | stateSyncResponse (r : StateSyncResponse W)
  | stateSyncRequest (q : StateSyncRequest)

/-- A node with the buckets its sync requests are counted in. -/
structure Serving (W : Type) where
  node : Node W
  stateSyncRateLimit : PeerId → RateBucket

/-- The responder's part of the node. -/
def Serving.responder (s : Serving W) : Responder where
  peerRegistry := s.node.peerRegistry
  shared := s.node.shared
  stateSyncRateLimit := s.stateSyncRateLimit

/-- The signed messages it decodes to. -/
def Inbound.messages (x : Externals W) : Inbound W → List (SignedMessage W)
  | .task data => (x.specCbor.decode data).toList.map .spec
  | .jobResult body => (x.resultCbor.decode body).toList.map .result
  | .verification body => (x.verificationCbor.decode body).toList.map .verification
  | .stateSyncResponse r => .syncResponse r :: r.outcomes.map .outcome
  | .stateSyncRequest q => [.syncRequest q]

/-- The messages the handler goes on with: they have passed its checks, and it
stores, counts or answers them.  The envelope of a sync response is checked for a
known responder only. -/
def acted (c : Ctx W) (reg : PeerRegistry) (i : Inbound W) : List (SignedMessage W) :=
  match i with
  | .stateSyncResponse r =>
    if syncEnvelopeOk c reg r then
      .syncResponse r :: (r.outcomes.map .outcome).filter (SignedMessage.authentic c.x reg)
    else []
  | _ => (i.messages c.x).filter (SignedMessage.authentic c.x reg)

theorem mem_messages_of_acted {c : Ctx W} {reg : PeerRegistry} {i : Inbound W}
    {m : SignedMessage W} (h : m ∈ acted c reg i) : m ∈ i.messages c.x := by
  cases i with
  | stateSyncResponse r =>
    simp only [acted] at h
    split at h
    · rcases List.mem_cons.mp h with rfl | h
      · exact List.mem_cons_self
      · exact List.mem_cons_of_mem _ (List.mem_of_mem_filter h)
    · cases h
  | _ => exact List.mem_of_mem_filter h

/-- No registered peer has signed a spec, a result, a vote or an outcome of
another version that reaches the check of its signature, and an unknown responder
sends none. -/
def NoForeignVersion (x : Externals W) (reg : PeerRegistry) (i : Inbound W) : Prop :=
  match i with
  | .stateSyncRequest _ => True
  | .stateSyncResponse r =>
    (reg.verifyingKey r.responder = none → r.wireVersion = wireVersion) ∧
      (r.wireVersion = wireVersion →
        reg.verifyingKey r.responder = none ∨ (SignedMessage.syncResponse r).Genuine x reg →
        ∀ o ∈ r.outcomes, (SignedMessage.outcome o).Genuine x reg → o.wireVersion = wireVersion)
  | _ => ∀ m ∈ i.messages x, m.Genuine x reg → m.wireVersion = wireVersion

/-- The envelope of a response is let through from an unknown responder, or with
the right version and a genuine signature. -/
theorem syncEnvelopeOk_cases (c : Ctx W) (reg : PeerRegistry) (r : StateSyncResponse W) :
    syncEnvelopeOk c reg r = true ↔
      reg.verifyingKey r.responder = none ∨
        ((SignedMessage.syncResponse r).Genuine c.x reg ∧ r.wireVersion = wireVersion) := by
  rw [syncEnvelopeOk_iff]
  cases hk : reg.verifyingKey r.responder with
  | none => simp
  | some key =>
    have hsig := SignedMessage.verifySignature_eq_ok_iff c.x key (.syncResponse r)
    have hgen : (SignedMessage.syncResponse r).Genuine c.x reg ↔
        (SignedMessage.syncResponse r).SignedUnder c.x key := by
      constructor
      · rintro ⟨key', hk', h⟩
        have hk' : reg.verifyingKey r.responder = some key' := hk'
        rw [hk] at hk'
        cases hk'
        exact h
      · intro h
        exact ⟨key, hk, h⟩
    constructor
    · intro h
      obtain ⟨hs, hv⟩ := hsig.mp (h key rfl)
      exact Or.inr ⟨hgen.mpr hs, hv rfl⟩
    · rintro (h | ⟨hs, hv⟩) key' hk'
      · cases h
      · cases hk'
        exact hsig.mpr ⟨hgen.mp hs, fun _ => hv⟩

/-- What a filtered list of messages without an envelope says of their versions. -/
private theorem forall_authentic_iff {x : Externals W} {r : PeerRegistry}
    {l : List (SignedMessage W)} (h : ∀ m ∈ l, m.isSync = false) :
    (∀ m ∈ l.filter (SignedMessage.authentic x r), m.wireVersion = wireVersion) ↔
      ∀ m ∈ l, m.Genuine x r → m.wireVersion = wireVersion := by
  simp only [List.mem_filter, SignedMessage.authentic_iff, and_imp]
  refine forall_congr' fun m => ⟨fun hm hl hg => hm hl hg ?_, fun hm hl hg _ => hm hl hg⟩
  intro hs
  rw [h m hl] at hs
  cases hs

theorem acted_ownVersion_iff (c : Ctx W) (reg : PeerRegistry) (i : Inbound W) :
    (∀ m ∈ acted c reg i, m.wireVersion = wireVersion) ↔ NoForeignVersion c.x reg i := by
  cases i with
  | task data => exact forall_authentic_iff (by simp [Inbound.messages, SignedMessage.isSync])
  | jobResult body => exact forall_authentic_iff (by simp [Inbound.messages, SignedMessage.isSync])
  | verification body =>
    exact forall_authentic_iff (by simp [Inbound.messages, SignedMessage.isSync])
  | stateSyncRequest q =>
    refine ⟨fun _ => trivial, fun _ m hm => ?_⟩
    obtain ⟨hmem, hauth⟩ := List.mem_filter.mp hm
    rw [List.mem_singleton.mp hmem] at hauth ⊢
    exact ((SignedMessage.authentic_iff c.x reg _).mp hauth).2 rfl
  | stateSyncResponse r =>
    have hcases := syncEnvelopeOk_cases c reg r
    simp only [acted, NoForeignVersion]
    cases henv : syncEnvelopeOk c reg r with
    | false =>
      have hbad := fun h => Bool.false_ne_true (henv.symm.trans (hcases.mpr h))
      refine ⟨fun _ => ⟨fun hun => absurd (Or.inl hun) hbad, fun hv h => ?_⟩, fun _ m hm => ?_⟩
      · exact absurd (h.imp_right fun hg => ⟨hg, hv⟩) hbad
      · cases hm
    | true =>
      have hinner := forall_authentic_iff (x := c.x) (r := reg)
        (l := r.outcomes.map SignedMessage.outcome) (by simp [SignedMessage.isSync])
      rw [if_pos rfl, List.forall_mem_cons, hinner, List.forall_mem_map]
      constructor
      · intro h
        exact ⟨fun _ => h.1, fun _ _ => h.2⟩
      · intro h
        rcases hcases.mp henv with hun | ⟨hg, hv⟩
        · exact ⟨h.1 hun, h.2 (h.1 hun) (Or.inl hun)⟩
        · exact ⟨hv, h.2 hv (Or.inr hg)⟩

/-! ## What the handlers do -/

/-- One inbound message: what it leaves, and the answer to a request. -/
def handleInbound [WeightArith W] (c : Ctx W) (clock : Clock) (s : Serving W) :
    Inbound W → Serving W × Option (StateSyncResponse W)
  | .task data => ({ s with node := handleTasksMessage c clock s.node ⟨none, data⟩ }, none)
  | .jobResult body => ({ s with node := handleInboundJobResult c clock s.node body }, none)
  | .verification body => ({ s with node := handleInboundVerification c clock s.node body }, none)
  | .stateSyncResponse r => ({ s with node := applyStateSyncResponse c clock s.node r }, none)
  | .stateSyncRequest q =>
    let (answer, r) := buildStateSyncResponse c clock s.responder q
    ({ s with stateSyncRateLimit := r.stateSyncRateLimit }, some answer)

/-- Nothing was stored or counted; a message of an unknown peer may be buffered. -/
structure Dropped (s s' : Serving W) : Prop where
  peerRegistry : s'.node.peerRegistry = s.node.peerRegistry
  shared : s'.node.shared = s.node.shared
  quorums : s'.node.quorums = s.node.quorums
  rateLimit : s'.node.rateLimit = s.node.rateLimit
  readiness : s'.node.readiness = s.node.readiness
  outbox : s'.node.outbox = s.node.outbox
  closed : s'.node.closed = s.node.closed
  stateSyncRateLimit : s'.stateSyncRateLimit = s.stateSyncRateLimit

theorem Dropped.refl (s : Serving W) : Dropped s s :=
  ⟨rfl, rfl, rfl, rfl, rfl, rfl, rfl, rfl⟩

theorem dropped_bufferMessage (s : Serving W) (clock : Clock) (p : PeerId) (payload : Bytes)
    (tag : Option UInt8) :
    Dropped s { s with node := bufferMessage clock s.node p payload tag } :=
  ⟨rfl, rfl, rfl, rfl, rfl, rfl, rfl, rfl⟩

/-- A message that is not authentic has an unknown signer or a bad signature. -/
theorem SignedMessage.unknown_or_bad {x : Externals W} {reg : PeerRegistry} {m : SignedMessage W}
    (h : m.authentic x reg = false) :
    reg.verifyingKey m.signer = none ∨
      ∃ key e, reg.verifyingKey m.signer = some key ∧ m.verifySignature x key = .error e := by
  cases hk : reg.verifyingKey m.signer with
  | none => exact Or.inl rfl
  | some key =>
    cases hs : m.verifySignature x key with
    | error e => exact Or.inr ⟨key, e, rfl, hs⟩
    | ok u => simp [authentic, hk, hs, Except.isOk, Except.toBool] at h

/-- A request that is not authentic is answered with nothing and not counted. -/
private theorem dropped_request {c : Ctx W} {r : Responder} {q : StateSyncRequest}
    (h : acted c r.peerRegistry (.stateSyncRequest q) = []) (clock : Clock) :
    (buildStateSyncResponse c clock r q).1.outcomes = [] ∧
      (buildStateSyncResponse c clock r q).2 = r := by
  have hauth : (SignedMessage.syncRequest q : SignedMessage W).authentic c.x r.peerRegistry =
      false := by
    simpa [acted, Inbound.messages] using h
  rcases SignedMessage.unknown_or_bad hauth with hk | ⟨key, e, hk, he⟩
  · have hk : r.peerRegistry.verifyingKey q.requester = none := hk
    simp only [buildStateSyncResponse, hk]
    exact ⟨rfl, trivial⟩
  · have hk : r.peerRegistry.verifyingKey q.requester = some key := hk
    have he : q.verifySignature c.x key = .error e := he
    simp only [buildStateSyncResponse, hk, he]
    exact ⟨rfl, trivial⟩

section Handlers

variable [WeightArith W]

/-- A spec that is not authentic is dropped or buffered. -/
private theorem dropped_task {c : Ctx W} {clock : Clock} {s : Serving W} {data : Bytes}
    (h : acted c s.node.peerRegistry (.task data) = []) :
    Dropped s (handleInbound c clock s (.task data)).1 := by
  simp only [handleInbound, handleTasksMessage, admitSpec]
  cases hd : c.x.specCbor.decode data with
  | none => exact Dropped.refl s
  | some spec =>
    have hauth : (SignedMessage.spec spec).authentic c.x s.node.peerRegistry = false := by
      simpa [acted, Inbound.messages, hd] using h
    rcases SignedMessage.unknown_or_bad hauth with hk | ⟨key, e, hk, he⟩
    · have hk : s.node.peerRegistry.verifyingKey spec.submitter = none := hk
      simp only [hk]
      exact dropped_bufferMessage ..
    · have hk : s.node.peerRegistry.verifyingKey spec.submitter = some key := hk
      have he : spec.verifySignature c.x key = .error e := he
      simp only [hk, he]
      exact Dropped.refl s

private theorem dropped_jobResult {c : Ctx W} {clock : Clock} {s : Serving W} {body : Bytes}
    (h : acted c s.node.peerRegistry (.jobResult body) = []) :
    Dropped s (handleInbound c clock s (.jobResult body)).1 := by
  simp only [handleInbound, handleInboundJobResult, admitJobResult]
  cases hd : c.x.resultCbor.decode body with
  | none => exact Dropped.refl s
  | some result =>
    have hauth : (SignedMessage.result result).authentic c.x s.node.peerRegistry = false := by
      simpa [acted, Inbound.messages, hd] using h
    rcases SignedMessage.unknown_or_bad hauth with hk | ⟨key, e, hk, he⟩
    · have hk : s.node.peerRegistry.verifyingKey result.executor = none := hk
      simp only [hk]
      exact dropped_bufferMessage ..
    · have hk : s.node.peerRegistry.verifyingKey result.executor = some key := hk
      have he : result.verifySignature c.x key = .error e := he
      simp only [hk, he]
      exact Dropped.refl s

private theorem dropped_verification {c : Ctx W} {clock : Clock} {s : Serving W} {body : Bytes}
    (h : acted c s.node.peerRegistry (.verification body) = []) :
    Dropped s (handleInbound c clock s (.verification body)).1 := by
  simp only [handleInbound, handleInboundVerification, admitVerification]
  cases hd : c.x.verificationCbor.decode body with
  | none => exact Dropped.refl s
  | some v =>
    have hauth : (SignedMessage.verification v).authentic c.x s.node.peerRegistry = false := by
      simpa [acted, Inbound.messages, hd] using h
    rcases SignedMessage.unknown_or_bad hauth with hk | ⟨key, e, hk, he⟩
    · have hk : s.node.peerRegistry.verifyingKey v.verifier = none := hk
      simp only [hk]
      exact dropped_bufferMessage ..
    · have hk : s.node.peerRegistry.verifyingKey v.verifier = some key := hk
      have he : v.verifySignature c.x key = .error e := he
      simp only [hk, he]
      exact Dropped.refl s

/-- What the node does not go on with leaves it as it was. -/
theorem dropped_of_not_acted {c : Ctx W} {clock : Clock} {s : Serving W} {i : Inbound W}
    (h : acted c s.node.peerRegistry i = []) :
    Dropped s (handleInbound c clock s i).1 ∧
      ∀ answer, (handleInbound c clock s i).2 = some answer → answer.outcomes = [] := by
  cases i with
  | task data => exact ⟨dropped_task h, fun _ h => nomatch h⟩
  | jobResult body => exact ⟨dropped_jobResult h, fun _ h => nomatch h⟩
  | verification body => exact ⟨dropped_verification h, fun _ h => nomatch h⟩
  | stateSyncResponse r =>
    refine ⟨?_, fun _ h => nomatch h⟩
    simp only [acted] at h
    split at h
    · cases h
    · next henv =>
      simp only [handleInbound, applyStateSyncResponse, if_neg henv]
      exact Dropped.refl s
  | stateSyncRequest q =>
    obtain ⟨hnone, hsame⟩ := dropped_request (r := s.responder) h clock
    simp only [handleInbound, hsame]
    refine ⟨⟨rfl, rfl, rfl, rfl, rfl, rfl, rfl, rfl⟩, ?_⟩
    intro answer hanswer
    rw [← Option.some.inj hanswer]
    exact hnone

/-- The version rule for one inbound message. -/
structure OwnVersion (c : Ctx W) (clock : Clock) (s : Serving W) (i : Inbound W) : Prop where
  /-- Whatever is stored, counted or answered has the version of this node. -/
  acted : ∀ m ∈ acted c s.node.peerRegistry i, m.wireVersion = wireVersion
  /-- An inbound message of another version is dropped. -/
  dropped : (∀ m ∈ i.messages c.x, m.wireVersion ≠ wireVersion) →
    Dropped s (handleInbound c clock s i).1 ∧
      ∀ answer, (handleInbound c clock s i).2 = some answer → answer.outcomes = []

/-- **Wire versions.**  For every node, key directory and inbound message: what
the handler stores, counts or answers has the node's own wire version if and only
if no registered peer has signed another version and no unknown responder sends
one. -/
theorem ownVersion_iff (c : Ctx W) (clock : Clock) (s : Serving W) (i : Inbound W) :
    OwnVersion c clock s i ↔ NoForeignVersion c.x s.node.peerRegistry i := by
  rw [← acted_ownVersion_iff]
  refine ⟨OwnVersion.acted, fun h => ⟨h, fun hforeign => dropped_of_not_acted ?_⟩⟩
  rw [List.eq_nil_iff_forall_not_mem]
  intro m hm
  exact hforeign m (mem_messages_of_acted hm) (h m hm)

end Handlers

/-- A spec of version 2, signed by peer 2. -/
def foreignSpec : JobSpec := { smallSpec false with wireVersion := 2 }

/-- Externals that know the spec of version 2 and the advertisement of peer 2. -/
def foreignExternals : Externals ℚ :=
  Externals.ofTables [(specBytes false, foreignSpec)] [] [] [(adBytes 2, adOf 2)]

/-- A node that has heard of peer 2. -/
def foreignServing : Serving ℚ where
  node := run (step (smallCtx foreignExternals)) (smallStart foreignExternals)
    [atSecs 0 (hearAd 2)]
  stateSyncRateLimit := fun _ => {}

/-- The signature of the spec is genuine, so its version goes unnoticed and it is
recorded. -/
theorem foreign_spec_recorded :
    foreignSpec.verifySignature foreignExternals (keyOf 2).verifyingKey = .ok () ∧
    (handleInbound (smallCtx foreignExternals) ⟨0, 0⟩ foreignServing
      (.task (specBytes false))).1.node.shared.tasks.contains
        (foreignSpec.contentHash foreignExternals) = true ∧
    ¬ OwnVersion (smallCtx foreignExternals) ⟨0, 0⟩ foreignServing (.task (specBytes false)) := by
  refine ⟨by decide +kernel, by decide +kernel, fun h => ?_⟩
  have hacted : .spec foreignSpec ∈ acted (smallCtx foreignExternals)
      foreignServing.node.peerRegistry (.task (specBytes false)) := by decide +kernel
  exact absurd (h.acted _ hacted) (by decide)

end Parseh.Miner
