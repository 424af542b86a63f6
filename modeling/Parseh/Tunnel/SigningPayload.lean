import Parseh.Miner.WireFormat
import Parseh.Tunnel.Grammar

/-!
# What a tunnel request is signed over (`parseh-tunnel`, `protocol.rs`, `tunnel.rs`)

The signed bytes hold two parts of variable length, the host and the peer id, and a
length for the first of them only.  They are read from both ends.

* `signingPayload_inj`: the signed bytes determine every field, for hosts whose length
  is not clamped;
* `signingPayload_ne_signingInput`: they are not the signed bytes of any other message,
  which are a CBOR map;
* `signatures_unambiguous`: so no signature passes for another request or message.
-/

namespace Parseh.Tunnel

open Parseh.Wire Parseh.Lib Parseh.Miner

/-- `WIRE_VERSION` of the tunnel. -/
def wireVersion : UInt32 := 1

def signatureDomain : Bytes := asBytes "parseh-tunnel-v1"

structure TunnelRequest where
  wireVersion : UInt32
  targetHost : String
  targetPort : UInt16
  clientPeerId : PeerId
  signedAt : UInt64
  signature : Bytes
  deriving DecidableEq

def signingPayload (wireVersion : UInt32) (targetHost : String) (targetPort : UInt16)
    (clientPeerId : PeerId) (signedAt : UInt64) : Bytes :=
  let hostLen : UInt16 := UInt16.ofNat (min (asBytes targetHost).length 65535)
  signatureDomain ++ Cbor.be 4 wireVersion.toNat ++ Cbor.be 2 hostLen.toNat ++
    asBytes targetHost ++ Cbor.be 2 targetPort.toNat ++ clientPeerId.toBytes ++
    Cbor.be 8 signedAt.toNat

variable {W : Type}

/-- `Tunnel::build_signed_request`, of a tunnel with this peer id and key. -/
def buildSignedRequest (x : Externals W) (clientPeerId : PeerId) (signingKey : SigningKey)
    (now : SystemTime) (target : Socks5Target) : TunnelRequest :=
  let signedAt := unixNow now
  let payload := signingPayload wireVersion target.host target.port clientPeerId signedAt
  let sig := x.sign signingKey payload
  { wireVersion := wireVersion
    targetHost := target.host
    targetPort := target.port
    clientPeerId := clientPeerId
    signedAt := signedAt
    signature := sig }

namespace TunnelRequest

/-- The bytes that the signature of a request is over. -/
def signingInput (q : TunnelRequest) : Bytes :=
  signingPayload q.wireVersion q.targetHost q.targetPort q.clientPeerId q.signedAt

/-- The request without its signature. -/
def unsigned (q : TunnelRequest) : TunnelRequest := { q with signature := [] }

/-- The host is short enough for its length to be written in two bytes. -/
def HostFits (q : TunnelRequest) : Prop := (asBytes q.targetHost).length ≤ 65535

instance (q : TunnelRequest) : Decidable q.HostFits := Nat.decLe _ _

/-- The check of an auditor: the signature is one over the request's own fields. -/
def Verifies (x : Externals W) (key : VerifyingKey) (q : TunnelRequest) : Prop :=
  x.verify key q.signingInput q.signature = .ok ()

end TunnelRequest

/-- The signature was made with this key over the request's own fields. -/
def SignedWith (x : Externals W) (secret : SigningKey) (q : TunnelRequest) : Prop :=
  q.signature = x.sign secret q.signingInput

theorem signedWith_buildSignedRequest (x : Externals W) (clientPeerId : PeerId)
    (secret : SigningKey) (now : SystemTime) (target : Socks5Target) :
    SignedWith x secret (buildSignedRequest x clientPeerId secret now target) := rfl

/-- A target that the server has read has a host that fits. -/
theorem hostFits_of_accepted {x : Externals W} {clientPeerId : PeerId} {secret : SigningKey}
    {now : SystemTime} {stream rest written : Bytes} {target : Socks5Target}
    (h : observe (serve ⟨stream, []⟩) = .accepted target rest written) :
    (buildSignedRequest x clientPeerId secret now target).HostFits :=
  (length_host_of_accepted h).trans (by decide)

/-! ## Reading the signed bytes -/

theorem signatureDomain_eq :
    signatureDomain = [0x70, 0x61, 0x72, 0x73, 0x65, 0x68, 0x2D, 0x74, 0x75, 0x6E, 0x6E, 0x65,
      0x6C, 0x2D, 0x76, 0x31] := by
  decide +kernel

theorem asBytes_injective : Function.Injective asBytes := by
  intro s t h
  have hs := Cbor.ofUtf8?_utf8 s
  have ht := Cbor.ofUtf8?_utf8 t
  rw [show Cbor.utf8 s = Cbor.utf8 t from h, ht] at hs
  exact (Option.some.inj hs).symm

/-- Two hosts of lengths that are not clamped, of which the written lengths agree. -/
theorem length_of_hostLen {m n : Nat} (hm : m ≤ 65535) (hn : n ≤ 65535)
    (h : Cbor.be 2 (UInt16.ofNat (min m 65535)).toNat =
      Cbor.be 2 (UInt16.ofNat (min n 65535)).toNat) : m = n := by
  have hlen := Cbor.be_inj (UInt16.toNat_lt _) (UInt16.toNat_lt _) h
  rw [UInt16.toNat_ofNat', UInt16.toNat_ofNat'] at hlen
  omega

section

variable {v v' : UInt32} {host host' : String} {port port' : UInt16} {peer peer' : PeerId}
  {signedAt signedAt' : UInt64}

/-- The signed bytes determine what is signed. -/
theorem signingPayload_inj (hfits : (asBytes host).length ≤ 65535)
    (hfits' : (asBytes host').length ≤ 65535)
    (h : signingPayload v host port peer signedAt =
      signingPayload v' host' port' peer' signedAt') :
    v = v' ∧ host = host' ∧ port = port' ∧ peer = peer' ∧ signedAt = signedAt' := by
  unfold signingPayload at h
  -- the time stands at the end, everything but the peer id at the front
  obtain ⟨h, htime⟩ := List.append_inj' h (by simp)
  simp only [List.append_assoc] at h
  have h := List.append_cancel_left h
  obtain ⟨hversion, h⟩ := List.append_inj h (by simp)
  obtain ⟨hlen, h⟩ := List.append_inj h (by simp)
  obtain ⟨hhost, h⟩ := List.append_inj h (length_of_hostLen hfits hfits' hlen)
  obtain ⟨hport, hpeer⟩ := List.append_inj h (by simp)
  refine ⟨?_, asBytes_injective hhost, ?_, PeerId.toBytes_injective hpeer, ?_⟩
  · exact UInt32.toNat_inj.mp (Cbor.be_inj v.toNat_lt v'.toNat_lt hversion)
  · exact UInt16.toNat_inj.mp (Cbor.be_inj port.toNat_lt port'.toNat_lt hport)
  · exact UInt64.toNat_inj.mp (Cbor.be_inj signedAt.toNat_lt signedAt'.toNat_lt htime)

theorem signingPayload_eq_cons (v : UInt32) (host : String) (port : UInt16) (peer : PeerId)
    (signedAt : UInt64) : ∃ bs, signingPayload v host port peer signedAt = 0x70 :: bs := by
  unfold signingPayload
  rw [signatureDomain_eq]
  exact ⟨_, rfl⟩

end

theorem TunnelRequest.unsigned_of_signingInput {q q' : TunnelRequest} (hfits : q.HostFits)
    (hfits' : q'.HostFits) (h : q.signingInput = q'.signingInput) : q.unsigned = q'.unsigned := by
  obtain ⟨hversion, hhost, hport, hpeer, htime⟩ := signingPayload_inj hfits hfits' h
  simp only [unsigned, hversion, hhost, hport, hpeer, htime]

/-! ## The other signed messages -/

/-- Every other signed message is written as a map. -/
theorem exists_item_eq_map (c : Wire.Cbor W) (e : Envelope W) :
    ∃ entries, e.item c = .map entries := by
  rcases e with (_ | _ | _ | _ | _ | _) | _ <;> exact ⟨_, rfl⟩

theorem signingPayload_ne_signingInput {c : Wire.Cbor W} (hc : c.tokens.MapHeads)
    (x : Externals W) (v : UInt32) (host : String) (port : UInt16) (peer : PeerId)
    (signedAt : UInt64) (e : Envelope W) :
    signingPayload v host port peer signedAt ≠ e.signingInput (x.withCbor c) := by
  intro h
  obtain ⟨bs, hpayload⟩ := signingPayload_eq_cons v host port peer signedAt
  obtain ⟨entries, hitem⟩ := exists_item_eq_map c e.unsigned
  obtain ⟨b, bs', hmap, hb⟩ := Cbor.encode_map_eq_cons hc entries
  rw [Envelope.signingInput_withCbor, hitem, hmap, hpayload] at h
  -- the first byte is `p`, of major type 3
  obtain ⟨rfl, -⟩ := List.cons.inj h
  exact absurd hb (by decide)

open Envelope (Binds)

/-- The signed bytes of a tunnel request determine its fields, and they are not those of
any task message or delta.  A tunnel signs these bytes, with a host that fits if the
server has read it.  A signature passes for no other request, and none passes from a
request to a message or back, as far as ed25519 binds it to the bytes it was made
over. -/
theorem signatures_unambiguous {c : Wire.Cbor W} (hc : c.tokens.MapHeads) (x : Externals W) :
    (∀ (v v' : UInt32) (host host' : String) (port port' : UInt16) (peer peer' : PeerId)
      (signedAt signedAt' : UInt64), (asBytes host).length ≤ 65535 →
      (asBytes host').length ≤ 65535 →
      signingPayload v host port peer signedAt = signingPayload v' host' port' peer' signedAt' →
      v = v' ∧ host = host' ∧ port = port' ∧ peer = peer' ∧ signedAt = signedAt') ∧
    (∀ (v : UInt32) (host : String) (port : UInt16) (peer : PeerId) (signedAt : UInt64)
      (e : Envelope W),
      signingPayload v host port peer signedAt ≠ e.signingInput (x.withCbor c)) ∧
    (∀ (clientPeerId : PeerId) (secret : SigningKey) (now : SystemTime) (target : Socks5Target),
      SignedWith x secret (buildSignedRequest x clientPeerId secret now target) ∧
      ∀ stream rest written, observe (serve ⟨stream, []⟩) = .accepted target rest written →
        (buildSignedRequest x clientPeerId secret now target).HostFits) ∧
    (∀ (secret : SigningKey) (q q' : TunnelRequest) (key : VerifyingKey), SignedWith x secret q →
      q.HostFits → q'.HostFits → q'.signature = q.signature →
      Binds x secret key q'.signingInput q.signingInput →
      q'.Verifies x key → q'.unsigned = q.unsigned) ∧
    (∀ (secret : SigningKey) (q : TunnelRequest) (e : Envelope W) (key : VerifyingKey),
      SignedWith x secret q → e.signature = q.signature →
      Binds x secret key (e.signingInput (x.withCbor c)) q.signingInput →
      ¬ e.Verifies (x.withCbor c) key) ∧
    ∀ (secret : SigningKey) (e : Envelope W) (q : TunnelRequest) (key : VerifyingKey),
      q.signature = x.sign secret (e.signingInput (x.withCbor c)) →
      Binds x secret key q.signingInput (e.signingInput (x.withCbor c)) → ¬ q.Verifies x key := by
  refine ⟨fun _ _ _ _ _ _ _ _ _ _ => signingPayload_inj,
    signingPayload_ne_signingInput hc x, fun clientPeerId secret now target =>
      ⟨signedWith_buildSignedRequest x clientPeerId secret now target, fun _ _ _ =>
        hostFits_of_accepted⟩, ?_, ?_, ?_⟩
  · intro secret q q' key hsigned hfits hfits' hsig hbinds hverifies
    rw [TunnelRequest.Verifies, hsig, hsigned] at hverifies
    exact TunnelRequest.unsigned_of_signingInput hfits' hfits (hbinds hverifies)
  · intro secret q e key hsigned hsig hbinds hverifies
    have hv := Envelope.verify_of_verifies hverifies
    rw [hsig, hsigned] at hv
    exact signingPayload_ne_signingInput hc x _ _ _ _ _ e (hbinds hv).symm
  · intro secret e q key hsig hbinds hverifies
    rw [TunnelRequest.Verifies, hsig] at hverifies
    exact signingPayload_ne_signingInput hc x _ _ _ _ _ e (hbinds hverifies)

/-- A request for the port 443, the same for the port 80, and a message with the
signature of the first. -/
def secureRequest : TunnelRequest :=
  buildSignedRequest checksumExternals (ed25519Peer 9) (keyOf 9) (fromSecs 100)
    ⟨"example.com", 443⟩

def plainPortRequest : TunnelRequest := { secureRequest with targetPort := 80 }

def borrowedMessage : Envelope UInt64 :=
  .message (.syncRequest
    { wireVersion := Wire.wireVersion, sinceUnix := 0, maxOutcomes := 500,
      requester := ed25519Peer 9, signedAt := 100, signature := secureRequest.signature })

/-- The request passes; its signature passes neither for the other port nor for the
message. -/
theorem signatures_unambiguous_port :
    secureRequest.Verifies checksumExternals (keyOf 9).verifyingKey ∧
      ¬ plainPortRequest.Verifies checksumExternals (keyOf 9).verifyingKey ∧
      ¬ borrowedMessage.Verifies (checksumExternals.withCbor standardCbor) (keyOf 9).verifyingKey := by
  obtain ⟨-, -, hbuilt, hport, hmessage, -⟩ :=
    signatures_unambiguous (c := standardCbor) Cbor.mapHeads_standard checksumExternals
  have hsigned : SignedWith checksumExternals (keyOf 9) secureRequest := (hbuilt _ _ _ _).1
  refine ⟨?_, fun h => ?_, ?_⟩
  · show checksumExternals.verify _ secureRequest.signingInput secureRequest.signature = .ok ()
    decide +kernel
  · have hbinds : Binds checksumExternals (keyOf 9) (keyOf 9).verifyingKey
        plainPortRequest.signingInput secureRequest.signingInput := by
      intro h
      revert h
      decide +kernel
    have hsame : plainPortRequest.signature = secureRequest.signature := by rw [plainPortRequest]
    have heq := hport _ _ _ _ hsigned (by decide +kernel) (by decide +kernel) hsame hbinds h
    exact absurd (congrArg TunnelRequest.targetPort heq) (by decide)
  · refine hmessage _ _ _ _ hsigned rfl ?_
    intro h
    revert h
    decide +kernel

end Parseh.Tunnel
