import Parseh.Lib.Cbor
import Parseh.Lib.Socket
import Parseh.Tunnel.IpAddr

/-!
# SOCKS5 at both ends (`relay`, `transport.rs`; `parseh-tunnel`, `socks5.rs`)

The relay's client and the tunnel's server, each as a program on its end of the
connection.

* `runs_serve`: the server reads the target that the client asked for, and nothing more;
* `runs_readReply` and `fails_readReply`: the client takes a reply for a success only if
  it says so, and then has read all of it;
* `socks5_agree` puts the two ends together.
-/

namespace Parseh.Tunnel

open Parseh.Wire Parseh.Lib Parseh.Lib.Socket

/-! ## Text -/

/-- `{:#x}` of a byte. -/
def hexAlt (b : UInt8) : String := "0x" ++ lowerHex b.toNat

/-- `0x{:02x}` of a byte. -/
def hexByte (b : UInt8) : String :=
  "0x" ++ String.ofList [hexDigit (b.toNat / 16), hexDigit (b.toNat % 16)]

/-- `str::as_bytes`. -/
def asBytes (s : String) : Bytes := Cbor.utf8 s

/-- `String::from_utf8`. -/
def fromUtf8 (b : Bytes) : Option String := Cbor.ofUtf8? b

/-- What `read_exact` says when the peer has closed. -/
def earlyEof : String := "early eof"

/-! ## The client -/

inductive TransportError
  | socksHandshake (text : String)
  | invalidTarget (target : String)
  | io (text : String)
  deriving DecidableEq

/-- The address of the request, with its type in front. -/
def requestAddr (host : String) : Except TransportError Bytes :=
  match Ipv4Addr.parse (asBytes host) with
  | some v4 => .ok (0x01 :: v4.octets)
  | none =>
    match Ipv6Addr.parse (asBytes host) with
    | some v6 => .ok (0x04 :: v6.octets)
    | none =>
      let hostname := asBytes host
      if hostname.length > 255 then .error (.invalidTarget host)
      else .ok (0x03 :: UInt8.ofNat hostname.length :: hostname)

/-- Read past the bound address of a reply. -/
def drainBound (atyp : UInt8) : Socket TransportError Unit :=
  if atyp = 0x01 then do
    let _ ← readExact (.io earlyEof) (4 + 2)
    return ()
  else if atyp = 0x03 then do
    let len ← readExact (.io earlyEof) 1
    let _ ← readExact (.io earlyEof) ((len.get 0).toNat + 2)
    return ()
  else if atyp = 0x04 then do
    let _ ← readExact (.io earlyEof) (16 + 2)
    return ()
  else fail (.socksHandshake ("unknown ATYP in connect reply: " ++ hexAlt atyp))

/-- Read the reply to the request. -/
def readReply : Socket TransportError Unit := do
  let hdr ← readExact (.io earlyEof) 4
  if hdr.get 0 ≠ 0x05 then
    fail (.socksHandshake ("bad protocol version in connect reply: " ++ hexAlt (hdr.get 0)))
  else if hdr.get 1 ≠ 0x00 then
    fail (.socksHandshake ("CONNECT failed (REP=" ++ hexAlt (hdr.get 1) ++ ")"))
  else drainBound (hdr.get 3)

/-- Send the request and read the reply. -/
def connect (host : String) (port : UInt16) : Socket TransportError Unit :=
  match requestAddr host with
  | .error e => fail e
  | .ok addr => do
    writeAll ([0x05, 0x01, 0x00] ++ addr ++ [hiByte port, loByte port])
    readReply

/-- `socks5_handshake`. -/
def socks5Handshake (host : String) (port : UInt16) : Socket TransportError Unit := do
  writeAll [0x05, 0x01, 0x00]
  let greetReply ← readExact (.io earlyEof) 2
  if greetReply.get 0 ≠ 0x05 then
    fail (.socksHandshake ("bad protocol version in greeting reply: " ++ hexAlt (greetReply.get 0)))
  else if greetReply.get 1 ≠ 0x00 then
    fail (.socksHandshake
      ("server rejected NO_AUTH (got method " ++ hexAlt (greetReply.get 1) ++ ")"))
  else connect host port

/-! ## The server -/

structure Socks5Target where
  host : String
  port : UInt16
  deriving DecidableEq

inductive Socks5Error
  | io (text : String)
  | protocol (text : String)
  | unsupportedCommand (cmd : UInt8)
  deriving DecidableEq

def socks5Version : UInt8 := 0x05
def methodNoAuth : UInt8 := 0x00
def methodNoAcceptable : UInt8 := 0xFF
def cmdConnect : UInt8 := 0x01
def atypIpv4 : UInt8 := 0x01
def atypDomainname : UInt8 := 0x03
def atypIpv6 : UInt8 := 0x04

inductive Reply
  | succeeded | generalFailure | networkUnreachable | hostUnreachable | connectionRefused
  | commandNotSupported
  deriving DecidableEq

/-- `reply as u8`. -/
def Reply.code : Reply → UInt8
  | .succeeded => 0x00
  | .generalFailure => 0x01
  | .networkUnreachable => 0x03
  | .hostUnreachable => 0x04
  | .connectionRefused => 0x05
  | .commandNotSupported => 0x07

/-- The bytes of a reply. -/
def replyBytes (reply : Reply) (bnd : SocketAddr) : Bytes :=
  let addr :=
    match bnd.ip with
    | .v4 v4 => atypIpv4 :: v4.octets
    | .v6 v6 => atypIpv6 :: v6.octets
  [socks5Version, reply.code, 0x00] ++ addr ++ [hiByte bnd.port, loByte bnd.port]

/-- `write_reply`. -/
def writeReply (reply : Reply) (bnd : SocketAddr) : Socket Socks5Error Unit :=
  writeAll (replyBytes reply bnd)

/-- `dummy_bnd`. -/
def dummyBnd : SocketAddr := ⟨.v4 ⟨0, 0, 0, 0⟩, 0⟩

/-- `negotiate_no_auth`. -/
def negotiateNoAuth : Socket Socks5Error Unit := do
  let head ← readExact (.io earlyEof) 2
  if head.get 0 ≠ socks5Version then
    fail (.protocol ("client offered SOCKS version " ++ hexByte (head.get 0) ++
      "; only SOCKS5 (0x05) is supported"))
  else
    let methods ← readExact (.io earlyEof) (head.get 1).toNat
    let chosen := if methodNoAuth ∈ methods.1 then methodNoAuth else methodNoAcceptable
    writeAll [socks5Version, chosen]
    if chosen = methodNoAcceptable then
      fail (.protocol "client offered no acceptable method (NO-AUTH required)")
    else return ()

/-- The host of a request with the given address type. -/
def readHost (atyp : UInt8) : Socket Socks5Error String :=
  if atyp = atypIpv4 then do
    let buf ← readExact (.io earlyEof) 4
    return (Ipv4Addr.mk (buf.get 0) (buf.get 1) (buf.get 2) (buf.get 3)).toString
  else if atyp = atypIpv6 then do
    let buf ← readExact (.io earlyEof) 16
    return (Ipv6Addr.ofOctets buf.1 buf.2).toString
  else if atyp = atypDomainname then do
    let lenBuf ← readExact (.io earlyEof) 1
    let name ← readExact (.io earlyEof) (lenBuf.get 0).toNat
    match fromUtf8 name.1 with
    | some s => return s
    | none =>
      writeReply .generalFailure dummyBnd
      fail (.protocol "DOMAINNAME ATYP carried non-UTF-8 bytes")
  else do
    writeReply .generalFailure dummyBnd
    fail (.protocol ("unsupported ATYP " ++ hexByte atyp))

/-- `read_connect_request`. -/
def readConnectRequest : Socket Socks5Error Socks5Target := do
  let head ← readExact (.io earlyEof) 4
  if head.get 0 ≠ socks5Version then
    fail (.protocol ("CONNECT request used SOCKS version " ++ hexByte (head.get 0) ++
      "; only 0x05 is supported"))
  else if head.get 1 ≠ cmdConnect then do
    writeReply .commandNotSupported dummyBnd
    fail (.unsupportedCommand (head.get 1))
  else do
    let host ← readHost (head.get 3)
    let portBuf ← readExact (.io earlyEof) 2
    return ⟨host, be16 (portBuf.get 0) (portBuf.get 1)⟩

/-! ## What the server reads -/

/-- The host as the server names it: an IP literal in canonical form. -/
def canonicalHost (host : String) : String :=
  match Ipv4Addr.parse (asBytes host) with
  | some v4 => v4.toString
  | none =>
    match Ipv6Addr.parse (asBytes host) with
    | some v6 => v6.toString
    | none => host

/-- A host that the client can ask for. -/
def Requestable (host : String) : Prop :=
  (Ipv4Addr.parse (asBytes host)).isSome ∨ (Ipv6Addr.parse (asBytes host)).isSome ∨
    (asBytes host).length ≤ 255

instance (host : String) : Decidable (Requestable host) :=
  inferInstanceAs (Decidable (_ ∨ _ ∨ _))

theorem runs_negotiateNoAuth (rest : Bytes) :
    Runs negotiateNoAuth ⟨[0x05, 0x01, 0x00] ++ rest, []⟩ () ⟨rest, [0x05, 0x00]⟩ := by
  refine Runs.bind (runs_readExact _ [0x05, 0x01] ([0x00] ++ rest) [] rfl) ?_
  refine Runs.bind (runs_readExact _ [0x00] rest [] rfl) ?_
  exact Runs.bind (runs_writeAll _ rest []) (Runs.pure () _)

theorem runs_readHost_ipv4 (ip : Ipv4Addr) (rest out : Bytes) :
    Runs (readHost 0x01) ⟨ip.octets ++ rest, out⟩ ip.toString ⟨rest, out⟩ :=
  Runs.bind (runs_readExact _ ip.octets rest out rfl) (Runs.pure _ _)

theorem runs_readHost_ipv6 (ip : Ipv6Addr) (rest out : Bytes) :
    Runs (readHost 0x04) ⟨ip.octets ++ rest, out⟩ ip.toString ⟨rest, out⟩ := by
  have hread := runs_readExact (Socks5Error.io earlyEof) ip.octets rest out ip.length_octets
  have hback := Ipv6Addr.ofOctets_octets ip ip.length_octets
  refine Runs.bind hread ?_
  show Runs (Pure.pure (Ipv6Addr.ofOctets ip.octets _).toString) _ _ _
  rw [hback]
  exact Runs.pure _ _

theorem runs_readHost_name {n : UInt8} {name : Bytes} {host : String} (hlen : name.length = n.toNat)
    (hname : fromUtf8 name = some host) (rest out : Bytes) :
    Runs (readHost 0x03) ⟨n :: name ++ rest, out⟩ host ⟨rest, out⟩ := by
  refine Runs.bind (runs_readExact _ [n] (name ++ rest) out rfl) ?_
  refine Runs.bind (runs_readExact _ name rest out hlen) ?_
  dsimp only
  rw [hname]
  exact Runs.pure _ _

theorem runs_readHost_domainname (host : String) (h : (asBytes host).length ≤ 255)
    (rest out : Bytes) :
    Runs (readHost 0x03) ⟨UInt8.ofNat (asBytes host).length :: asBytes host ++ rest, out⟩ host
      ⟨rest, out⟩ := by
  have hlen : (asBytes host).length = (UInt8.ofNat (asBytes host).length).toNat := by
    rw [UInt8.toNat_ofNat']
    omega
  exact runs_readHost_name hlen (Cbor.ofUtf8?_utf8 host) rest out

/-- The address of the request is read back, whichever of the three types it has. -/
theorem exists_requestAddr {host : String} (h : Requestable host) :
    ∃ atyp addr, requestAddr host = .ok (atyp :: addr) ∧
      ∀ rest out, Runs (readHost atyp) ⟨addr ++ rest, out⟩ (canonicalHost host) ⟨rest, out⟩ := by
  unfold requestAddr canonicalHost
  cases h4 : Ipv4Addr.parse (asBytes host) with
  | some v4 => exact ⟨0x01, v4.octets, rfl, runs_readHost_ipv4 v4⟩
  | none =>
    cases h6 : Ipv6Addr.parse (asBytes host) with
    | some v6 => exact ⟨0x04, v6.octets, rfl, runs_readHost_ipv6 v6⟩
    | none =>
      have hlen : (asBytes host).length ≤ 255 := by
        simpa [Requestable, h4, h6] using h
      refine ⟨0x03, UInt8.ofNat (asBytes host).length :: asBytes host, ?_,
        runs_readHost_domainname host hlen⟩
      exact if_neg (by omega)

theorem runs_readConnectRequest {host : String} {atyp : UInt8} {addr : Bytes}
    (haddr : ∀ rest out,
      Runs (readHost atyp) ⟨addr ++ rest, out⟩ (canonicalHost host) ⟨rest, out⟩)
    (port : UInt16) (rest out : Bytes) :
    Runs readConnectRequest
      ⟨[0x05, 0x01, 0x00] ++ (atyp :: addr) ++ [hiByte port, loByte port] ++ rest, out⟩
      ⟨canonicalHost host, port⟩ ⟨rest, out⟩ := by
  have hwire : [0x05, 0x01, 0x00] ++ (atyp :: addr) ++ [hiByte port, loByte port] ++ rest =
      [0x05, 0x01, 0x00, atyp] ++ (addr ++ ([hiByte port, loByte port] ++ rest)) := by simp
  rw [hwire]
  refine Runs.bind (runs_readExact _ [0x05, 0x01, 0x00, atyp] _ out rfl) ?_
  refine Runs.bind (haddr ([hiByte port, loByte port] ++ rest) out) ?_
  refine Runs.bind (runs_readExact _ [hiByte port, loByte port] rest out rfl) ?_
  have hport : be16 (hiByte port) (loByte port) = port := be16_hiByte_loByte port
  show Runs (Pure.pure (Socks5Target.mk _ (be16 (hiByte port) (loByte port)))) _ _ _
  rw [hport]
  exact Runs.pure _ _

/-! ## What the client reads -/

/-- The bound address of a reply is read past, whichever of the two types it has. -/
theorem exists_replyBytes (reply : Reply) (bnd : SocketAddr) :
    ∃ atyp addr, replyBytes reply bnd = [0x05, reply.code, 0x00, atyp] ++ addr ∧
      ∀ rest out, Runs (drainBound atyp) ⟨addr ++ rest, out⟩ () ⟨rest, out⟩ := by
  obtain ⟨ip | ip, port⟩ := bnd
  · have hlen : (ip.octets ++ [hiByte port, loByte port]).length = 4 + 2 := rfl
    refine ⟨0x01, ip.octets ++ [hiByte port, loByte port], ?_, fun rest out => ?_⟩
    · simp [replyBytes, socks5Version, atypIpv4]
    · exact Runs.bind (runs_readExact _ _ rest out hlen) (Runs.pure _ _)
  · have hlen : (ip.octets ++ [hiByte port, loByte port]).length = 16 + 2 := by
      rw [List.length_append, ip.length_octets]
      rfl
    refine ⟨0x04, ip.octets ++ [hiByte port, loByte port], ?_, fun rest out => ?_⟩
    · simp [replyBytes, socks5Version, atypIpv6]
    · exact Runs.bind (runs_readExact _ _ rest out hlen) (Runs.pure _ _)

theorem Reply.code_ne {reply : Reply} (h : reply ≠ .succeeded) : reply.code ≠ 0x00 := by
  cases reply with
  | succeeded => exact absurd rfl h
  | _ => decide

/-- The reply of success is read to its end, and any other one fails. -/
theorem runs_readReply (bnd : SocketAddr) (rest out : Bytes) :
    Runs readReply ⟨replyBytes .succeeded bnd ++ rest, out⟩ () ⟨rest, out⟩ := by
  obtain ⟨atyp, addr, hbytes, hdrain⟩ := exists_replyBytes .succeeded bnd
  rw [hbytes, List.append_assoc]
  exact Runs.bind (runs_readExact _ [0x05, 0x00, 0x00, atyp] _ out rfl) (hdrain rest out)

theorem fails_readReply {reply : Reply} (h : reply ≠ .succeeded) (bnd : SocketAddr)
    (rest out : Bytes) :
    ∃ c, Fails readReply ⟨replyBytes reply bnd ++ rest, out⟩
      (.socksHandshake ("CONNECT failed (REP=" ++ hexAlt reply.code ++ ")")) c := by
  obtain ⟨atyp, addr, hbytes, -⟩ := exists_replyBytes reply bnd
  refine ⟨⟨addr ++ rest, out⟩, ?_⟩
  rw [hbytes, List.append_assoc]
  refine Runs.bind_fails (runs_readExact _ [0x05, reply.code, 0x00, atyp] _ out rfl) ?_
  show Fails (if (0x05 : UInt8) ≠ 0x05 then _ else if reply.code ≠ 0x00 then fail _ else _) _ _ _
  rw [if_neg (by decide), if_pos (Reply.code_ne h)]
  exact fails_fail _ _

/-- What the client has sent once its greeting is accepted. -/
def sentBytes (addr : Bytes) (port : UInt16) : Bytes :=
  [0x05, 0x01, 0x00] ++ ([0x05, 0x01, 0x00] ++ addr ++ [hiByte port, loByte port])

/-- After an accepted greeting the handshake is the reading of the reply. -/
theorem socks5Handshake_eq {host : String} {addr : Bytes} (h : requestAddr host = .ok addr)
    (port : UInt16) (replies : Bytes) :
    socks5Handshake host port ⟨[0x05, 0x00] ++ replies, []⟩ =
      readReply ⟨replies, sentBytes addr port⟩ := by
  have hconnect : connect host port = (do
      writeAll ([0x05, 0x01, 0x00] ++ addr ++ [hiByte port, loByte port])
      readReply) := by
    rw [connect, h]
  refine (Runs.bind_eq (runs_writeAll _ _ [])).trans ?_
  refine (Runs.bind_eq (runs_readExact _ [0x05, 0x00] replies _ rfl)).trans ?_
  show connect host port _ = _
  rw [hconnect]
  exact Runs.bind_eq (runs_writeAll _ replies _)

theorem quiet_drainBound (atyp : UInt8) : Quiet (drainBound atyp) := by
  unfold drainBound
  split
  · exact Quiet.bind (quiet_readExact _ _) fun _ => quiet_pure ()
  · split
    · exact Quiet.bind (quiet_readExact _ _) fun _ =>
        Quiet.bind (quiet_readExact _ _) fun _ => quiet_pure ()
    · split
      · exact Quiet.bind (quiet_readExact _ _) fun _ => quiet_pure ()
      · exact quiet_fail _

theorem quiet_readReply : Quiet readReply := by
  refine Quiet.bind (quiet_readExact _ _) fun hdr => ?_
  split
  · exact quiet_fail _
  · split
    · exact quiet_fail _
    · exact quiet_drainBound _

/-! ## The two ends -/

/-- The server's side up to the reply. -/
def serve : Socket Socks5Error Socks5Target := do
  negotiateNoAuth
  readConnectRequest

theorem runs_serve {host : String} {atyp : UInt8} {addr : Bytes}
    (haddr : ∀ rest out,
      Runs (readHost atyp) ⟨addr ++ rest, out⟩ (canonicalHost host) ⟨rest, out⟩)
    (port : UInt16) (rest : Bytes) :
    Runs serve ⟨sentBytes (atyp :: addr) port ++ rest, []⟩ ⟨canonicalHost host, port⟩
      ⟨rest, [0x05, 0x00]⟩ := by
  unfold sentBytes
  rw [List.append_assoc]
  exact Runs.bind (runs_negotiateNoAuth _) (runs_readConnectRequest haddr port rest _)

/-- Whatever the client is answered after its greeting, it sends the same bytes.  The
server reads the target from them, and only them; on a reply of success the client is
done at the end of the reply, and on any other it fails. -/
theorem socks5_agree (host : String) (port : UInt16) (bnd : SocketAddr) (h : Requestable host) :
    ∃ sent,
      (∀ replies, (socks5Handshake host port ⟨[0x05, 0x00] ++ replies, []⟩).2.outbox = sent) ∧
      (∀ following,
        Runs serve ⟨sent ++ following, []⟩ ⟨canonicalHost host, port⟩
          ⟨following, [0x05, 0x00]⟩) ∧
      ∀ reply, ∃ bytes,
        (∀ c, Runs (writeReply reply bnd) c () { c with outbox := c.outbox ++ bytes }) ∧
        ∀ following,
          let answered : Conn := ⟨[0x05, 0x00] ++ (bytes ++ following), []⟩
          if reply = .succeeded then
            Runs (socks5Handshake host port) answered () ⟨following, sent⟩
          else
            ∃ c, Fails (socks5Handshake host port) answered
              (.socksHandshake ("CONNECT failed (REP=" ++ hexAlt reply.code ++ ")")) c := by
  obtain ⟨atyp, addr, hrequest, haddr⟩ := exists_requestAddr h
  have hclient := socks5Handshake_eq hrequest port
  refine ⟨sentBytes (atyp :: addr) port, fun replies => ?_, runs_serve haddr port, fun reply =>
    ⟨replyBytes reply bnd, fun c => rfl, fun following => ?_⟩⟩
  · rw [hclient]
    exact quiet_readReply _
  · dsimp only
    unfold Runs Fails
    rw [hclient]
    split
    · next hreply =>
      subst hreply
      exact runs_readReply bnd following _
    · next hreply => exact fails_readReply hreply bnd following _

theorem socks5_agree_ipv6 :
    Requestable "2001:0DB8::0:1" ∧
      ∃ sent,
        (∀ replies,
          (socks5Handshake "2001:0DB8::0:1" 443 ⟨[0x05, 0x00] ++ replies, []⟩).2.outbox = sent) ∧
        ∀ following,
          Runs serve ⟨sent ++ following, []⟩ ⟨"2001:db8::1", 443⟩ ⟨following, [0x05, 0x00]⟩ := by
  have hhost : Requestable "2001:0DB8::0:1" := by decide +kernel
  have hcanonical : canonicalHost "2001:0DB8::0:1" = "2001:db8::1" := by decide +kernel
  obtain ⟨sent, hsent, hserve, -⟩ := socks5_agree "2001:0DB8::0:1" 443 dummyBnd hhost
  rw [hcanonical] at hserve
  exact ⟨hhost, sent, hsent, hserve⟩

end Parseh.Tunnel
