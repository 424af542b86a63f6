import Parseh.Shared.DeltaAuth
import Parseh.Chaos.Byzantine
import Parseh.Chaos.Ledger

/-!
# Corrupted deltas

`CorruptionScenario::corrupt` tampers with a signed state delta in one of four ways
and `inject_corrupted_delta` gossips what comes out.  `corruption_harmless`: however
many corrupted deltas are mixed into a run of the mesh, it ends as it does without
them, as long as nobody re-signs with the observer's own key.

Nothing is assumed of the truncated and of the deleted row, whose signatures have the
wrong length.  The flipped row rests on ed25519 refusing the 64 bytes that replace the
signature, and the re-signed one on a signature being good for one key only.
-/

namespace Parseh.Chaos

open Parseh.Lib Parseh.Wire Parseh.Core Parseh.Shared Parseh.Verify Parseh.Miner NodeLoop

variable {W : Type}

inductive CorruptionMode
  | flipBitsInRow
  | truncateRow
  | reSignWithImposterKey
  | deleteRow
  deriving DecidableEq

inductive CorruptError
  /-- "delta too short to corrupt" -/
  | tooShort
  /-- "decode flipped: ..." -/
  | decodeFlipped
  /-- "ReSignWithImposterKey needs an imposter key" -/
  | noImposterKey
  deriving DecidableEq

/-- What replaces the signature of a flipped row. -/
def garbage : Bytes := List.replicate 64 0xAB

/-- The row of a deleted outcome names no verification. -/
def blank : DeltaKind W → DeltaKind W
  | .outcome o => .outcome { o with verificationHashes := [] }
  | kind => kind

/-- `CorruptionScenario::corrupt`. -/
def corrupt (x : Externals W) (mode : CorruptionMode) (delta : StateDelta W)
    (imposterKey : Option SigningKey) : Except CorruptError (StateDelta W) :=
  match mode with
  | .flipBitsInRow =>
    let bytes := x.deltaCbor.encode delta
    if bytes.length < 4 then .error .tooShort
    else
      -- the third byte from the end, where the signature is
      match x.deltaCbor.decode (bytes.modify (bytes.length - 3) (· ^^^ 0xFF)) with
      | none => .error .decodeFlipped
      | some corrupted => .ok { corrupted with signature := garbage }
  | .truncateRow => .ok { delta with signature := [] }
  | .reSignWithImposterKey =>
    match imposterKey with
    | none => .error .noImposterKey
    | some key => .ok (signDelta x { delta with signature := [] } key)
  | .deleteRow => .ok { delta with signature := [], kind := blank delta.kind }

/-! ## What a corrupted delta looks like -/

section Corrupt

variable {x : Externals W} {mode : CorruptionMode} {delta d : StateDelta W}
  {imposterKey : Option SigningKey}

/-- The signature is garbage or gone, unless the delta was signed anew. -/
theorem corrupt_cases (h : corrupt x mode delta imposterKey = .ok d) :
    d.signature = garbage ∨ d.signature = [] ∨
    ∃ key, mode = .reSignWithImposterKey ∧ imposterKey = some key ∧
      d = signDelta x { delta with signature := [] } key := by
  cases mode with
  | flipBitsInRow =>
    simp only [corrupt] at h
    split at h
    · cases h
    · split at h
      · cases h
      · obtain rfl := Except.ok.inj h
        exact Or.inl rfl
  | truncateRow =>
    obtain rfl := Except.ok.inj h
    exact Or.inr (Or.inl rfl)
  | deleteRow =>
    obtain rfl := Except.ok.inj h
    exact Or.inr (Or.inl rfl)
  | reSignWithImposterKey =>
    cases imposterKey with
    | none => cases h
    | some key => exact Or.inr (Or.inr ⟨key, rfl, rfl, (Except.ok.inj h).symm⟩)

end Corrupt

/-! ## The network -/

/-- Two properties of ed25519; `publicOf` is the public half of a key. -/
structure Ed25519 (x : Externals W) (publicOf : SigningKey → VerifyingKey) : Prop where
  /-- The scalar of a signature must be reduced, and that of `garbage` is not. -/
  reduced : ∀ key bytes, x.verify key bytes garbage ≠ .ok ()
  /-- A signature verifies under the key of the signer only. -/
  signer : ∀ secret key bytes, x.verify key bytes (x.sign secret bytes) = .ok () →
    key = publicOf secret

/-- A delta that is encoded and decoded keeps its observer, its signature and its
signed bytes.  The payload may change in the bits of a NaN. -/
structure KeepsEnvelope (x : Externals W) (d d' : StateDelta W) : Prop where
  observer : d'.observer = d.observer
  signature : d'.signature = d.signature
  signed : x.deltaCbor.encode { d' with signature := [] } =
    x.deltaCbor.encode { d with signature := [] }

/-- Somebody hears a corrupted delta.  An imposter may not have the key of the observer
it speaks for, and the observer is not one that advertises other keys than its own. -/
def Injected (c : MeshCtx W) (publicOf : SigningKey → VerifyingKey) (byz : Finset PeerId)
    (act : Act W) : Prop :=
  ∃ i clock source coin mode delta imposterKey d,
    act = .turn i ⟨clock, .gossip source .stateDeltas (c.x.deltaCbor.encode d) coin⟩ ∧
    corrupt c.x mode delta imposterKey = .ok d ∧
    (mode = .reSignWithImposterKey → delta.observer ∉ byz ∧
      ∀ key ∈ imposterKey, publicOf key ≠ c.verifyingKey delta.observer)

section Dropped

variable {c : MeshCtx W} {publicOf : SigningKey → VerifyingKey} {byz : Finset PeerId}

/-- A delta whose envelope no known key signed is dropped. -/
theorem handleDelta_of_unsigned {c : Ctx W} {n : NodeLoop W} {data : Bytes}
    (h : ∀ d, c.x.deltaCbor.decode data = some d → ∀ key,
      n.registry.verifyingKey d.observer = some key → ¬ EnvelopeSigned c.x d key)
    (clock : Clock) : n.handleDelta c clock data = n := by
  unfold handleDelta
  split
  · rfl
  · next d hd =>
    split
    · rfl
    · next key hkey =>
      split
      · rfl
      · next hv => exact absurd ((verifyDelta_eq_ok_iff c.x d key).mp hv) (h d hd key hkey)

/-- The envelope of a corrupted delta verifies under no key that a registry holds for
its observer. -/
theorem unsigned_of_corrupt (hed : Ed25519 c.x publicOf) {n : NodeLoop W}
    (hkeys : KeysBound c byz n) {mode : CorruptionMode} {delta d d' : StateDelta W}
    {imposterKey : Option SigningKey} (hd : corrupt c.x mode delta imposterKey = .ok d)
    (himposter : mode = .reSignWithImposterKey → delta.observer ∉ byz ∧
      ∀ key ∈ imposterKey, publicOf key ≠ c.verifyingKey delta.observer)
    (hwire : KeepsEnvelope c.x d d') {key : VerifyingKey}
    (hkey : n.registry.verifyingKey d'.observer = some key) : ¬ EnvelopeSigned c.x d' key := by
  intro henv
  have hsigned := henv.signed
  rw [hwire.signed, hwire.signature] at hsigned
  rcases corrupt_cases hd with hsig | hsig | ⟨imposter, rfl, rfl, rfl⟩
  · rw [hsig] at hsigned
    exact hed.reduced _ _ hsigned
  · have hlength := henv.length
    rw [hwire.signature, hsig] at hlength
    cases hlength
  · -- the key of the signature is the imposter's, the registered one is the observer's
    obtain ⟨hhonest, hforeign⟩ := himposter rfl
    have hown : key = c.verifyingKey delta.observer :=
      hkeys delta.observer hhonest key (hwire.observer ▸ hkey)
    have hmade : key = publicOf imposter := hed.signer imposter key _ hsigned
    exact hforeign imposter rfl (hmade.symm.trans hown)

/-- Hearing a corrupted delta changes nothing in the mesh. -/
theorem step_injected [WeightArith W] (hed : Ed25519 c.x publicOf)
    (hwire : ∀ d d', c.x.deltaCbor.decode (c.x.deltaCbor.encode d) = some d' →
      KeepsEnvelope c.x d d')
    {m : Mesh W} (hkeys : ∀ i, KeysBound c byz (m.node i)) {act : Act W}
    (h : Injected c publicOf byz act) : m.step c act = m := by
  obtain ⟨i, clock, source, coin, mode, delta, imposterKey, d, rfl, hd, himposter⟩ := h
  have hdrop : (m.node i).handleDelta (c.ctx i) clock (c.x.deltaCbor.encode d) = m.node i :=
    handleDelta_of_unsigned (fun d' hd' key hkey =>
      unsigned_of_corrupt hed (hkeys i) hd himposter (hwire d d' hd') hkey) clock
  have hstep : (m.node i).step (c.ctx i) m.groupOf
      ⟨clock, .gossip source .stateDeltas (c.x.deltaCbor.encode d) coin⟩ = m.node i := by
    simp only [NodeLoop.step, dispatch, hdrop, ite_self]
  have hnode : (fun j => if j = i then m.node i else m.node j) = m.node := by
    funext j
    split
    · next hj => rw [hj]
    · rfl
  simp only [Mesh.step, hstep, hnode]

end Dropped

/-- **Corrupted deltas are harmless.**  Put any number of corrupted deltas anywhere
into an authentic run of the mesh, to be heard by anyone at any time: every node ends
in the state it has without them. -/
theorem corruption_harmless [WeightArith W] (c : MeshCtx W)
    (publicOf : SigningKey → VerifyingKey) (hed : Ed25519 c.x publicOf)
    (hwire : ∀ d d', c.x.deltaCbor.decode (c.x.deltaCbor.encode d) = some d' →
      KeepsEnvelope c.x d d')
    (byz : Finset PeerId) (clockOf : PeerId → Clock) {clean tampered : List (Act W)}
    (hauth : Guarded (Mesh.step c) (Authentic c byz) (Mesh.start c clockOf) clean)
    (hpad : Padded (Injected c publicOf byz) clean tampered) :
    run (Mesh.step c) (Mesh.start c clockOf) tampered =
      run (Mesh.step c) (Mesh.start c clockOf) clean := by
  refine run_padded (I := Safe c byz) (fun m act hact hm => hm.step hact) ?_ hpad hauth
    (safe_start c byz clockOf)
  intro m act hm hact
  exact step_injected hed hwire hm.keys hact

/-! ### A reward and its corruptions -/

/-- The reward of peer 1 as peer 10 signs it, what its flipped bytes decode to, and
what is gossiped: the flipped, the truncated (or deleted) and the re-signed row. -/
def rewardTable : List (Bytes × StateDelta ℚ) :=
  [([1, 2, 3, 4], rewardDelta 10), ([1, 253, 3, 4], { rewardDelta 10 with observedAt := 7 }),
    ([5], { rewardDelta 10 with observedAt := 7, signature := garbage }),
    ([6], { rewardDelta 10 with signature := [] }),
    ([7], { rewardDelta 10 with signature := List.replicate 64 66 })]

/-- Signatures are keys written twice, and garbage is refused. -/
def rewardExternals : Externals ℚ :=
  { Externals.ofTables [] [] [] [(adBytes 10, adOf 10)] with
    deltaCbor := Codec.ofTable rewardTable
    verify := fun k _ sig =>
      if sig ≠ garbage ∧ sig = k.asBytes.bytes ++ k.asBytes.bytes then .ok ()
      else .error "signature error" }

def rewardMesh : MeshCtx ℚ := { threeCtx with x := rewardExternals }

theorem ed25519_rewardExternals : Ed25519 rewardExternals SigningKey.verifyingKey := by
  constructor
  · intro key bytes h
    simp only [rewardExternals, ne_eq, not_true_eq_false, false_and, if_false] at h
    cases h
  · intro secret key bytes h
    simp only [rewardExternals, Externals.ofTables] at h
    split at h
    · next hsig =>
      have hhalf : secret.secret.bytes = key.asBytes.bytes :=
        (List.append_inj hsig.2 (secret.secret.size.trans key.asBytes.size.symm)).1
      rcases key with ⟨⟨bytes, hsize⟩⟩
      subst hhalf
      rfl
    · cases h

theorem keepsEnvelope_rewardExternals (d d' : StateDelta ℚ)
    (h : rewardExternals.deltaCbor.decode (rewardExternals.deltaCbor.encode d) = some d') :
    KeepsEnvelope rewardExternals d d' := by
  suffices heq : d' = d from heq ▸ ⟨rfl, rfl, rfl⟩
  have hback : ∀ e ∈ rewardTable, rewardExternals.deltaCbor.decode e.1 = some e.2 := by decide
  cases hfind : rewardTable.find? (fun e => e.2 = d) with
  | none =>
    have henc : rewardExternals.deltaCbor.encode d = [] := by
      simp [rewardExternals, Codec.ofTable, hfind]
    rw [henc] at h
    exact absurd h (by simp [rewardExternals, Codec.ofTable, rewardTable])
  | some e =>
    have henc : rewardExternals.deltaCbor.encode d = e.1 := by
      simp [rewardExternals, Codec.ofTable, hfind]
    have hd : e.2 = d := by simpa using List.find?_some hfind
    rw [henc, hback e (List.mem_of_find?_eq_some hfind), hd] at h
    exact (Option.some.inj h).symm

/-- Node 9 learns the key of peer 10 and hears its reward. -/
def rewardActs : List (Act ℚ) := [hear 9 .caps (adBytes 10), hear 9 .stateDeltas [1, 2, 3, 4]]

/-- The corruptions of the reward are heard too, before and after it. -/
def tamperedActs : List (Act ℚ) :=
  [hear 9 .stateDeltas [7], hear 9 .caps (adBytes 10), hear 9 .stateDeltas [5],
    hear 9 .stateDeltas [6], hear 9 .stateDeltas [1, 2, 3, 4], hear 9 .stateDeltas [7],
    hear 10 .stateDeltas [5]]

theorem injected_corrupt (i : UInt8) (mode : CorruptionMode) {d : StateDelta ℚ}
    (hd : corrupt rewardExternals mode (rewardDelta 10) (some (keyOf 66)) = .ok d) :
    Injected rewardMesh SigningKey.verifyingKey ∅
      (hear i .stateDeltas (rewardExternals.deltaCbor.encode d)) := by
  refine ⟨peerOf i, _, _, _, mode, rewardDelta 10, some (keyOf 66), d, rfl, hd, fun _ => ?_⟩
  refine ⟨Finset.notMem_empty _, fun key hkey => ?_⟩
  obtain rfl := Option.some.inj hkey
  decide

/-- The tampered run pays the reward once, as the clean one does. -/
theorem tampered_reward :
    ((run (Mesh.step rewardMesh) (Mesh.start rewardMesh fun _ => ⟨0, 0⟩) tamperedActs).node
      (peerOf 9)).reputationLocal (peerOf 1) = 10 := by
  have hflip := fun i => injected_corrupt i .flipBitsInRow (by rfl)
  have htruncate := injected_corrupt 9 .truncateRow (by rfl)
  have hresign := injected_corrupt 9 .reSignWithImposterKey (by rfl)
  have hpad : Padded (Injected rewardMesh SigningKey.verifyingKey ∅) rewardActs tamperedActs := by
    exact .add hresign (.keep _ (.add (hflip 9) (.add htruncate (.keep _ (.add hresign
      (.add (hflip 10) .nil))))))
  have hrun := corruption_harmless rewardMesh SigningKey.verifyingKey ed25519_rewardExternals
    keepsEnvelope_rewardExternals ∅ (fun _ => ⟨0, 0⟩) (by decide +kernel) hpad
  rw [hrun]
  decide +kernel

end Parseh.Chaos
