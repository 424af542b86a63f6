import Parseh.Lib.Utf8
import Parseh.Tunnel.Socks5

/-!
# What the SOCKS5 server accepts (`parseh-tunnel`, `socks5.rs`)

The client's bytes as a grammar that does not mention the server: greetings, requests and
addresses, with every way in which one can be cut short or be wrong.

* `observe_serve`: on a stream of the grammar the server does what the grammar says;
* `exists_session`: every stream is one of the grammar;
* `serve_grammar`: so the grammar says exactly what the server does;
* `length_host_of_accepted`: no accepted host has more than 255 bytes.
-/

namespace Parseh.Tunnel

open Parseh.Wire Parseh.Lib Parseh.Lib.Socket

/-! ## The grammar -/

/-- An address with its type in front, and the host that it names. -/
inductive Address : Bytes → String → Prop
  | ipv4 (a b c d : UInt8) : Address [0x01, a, b, c, d] (Ipv4Addr.mk a b c d).toString
  | ipv6 (octets : Bytes) (h : octets.length = 16) :
    Address (0x04 :: octets) (Ipv6Addr.ofOctets octets h).toString
  | domainname (n : UInt8) (name : Bytes) (host : String) (hlen : name.length = n.toNat)
    (hname : fromUtf8 name = some host) : Address (0x03 :: n :: name) host

/-- What can be observed of the server: the bytes it has written, and on success the
target and the bytes that it has left to be read. -/
inductive Outcome
  | accepted (target : Socks5Target) (rest written : Bytes)
  | failed (written : Bytes)
  deriving DecidableEq

/-- The same, after other bytes have been written. -/
def Outcome.after (written : Bytes) : Outcome → Outcome
  | .accepted target rest w => .accepted target rest (written ++ w)
  | .failed w => .failed (written ++ w)

/-- A reply without an address: ten bytes, of which the second is the code. -/
def refusal (code : UInt8) : Bytes := [0x05, code, 0x00, 0x01, 0, 0, 0, 0, 0, 0]

/-- What follows the greeting. -/
inductive Request : Bytes → Outcome → Prop
  | shortHead {s : Bytes} (h : s.length < 4) : Request s (.failed [])
  | version {v cmd rsv atyp : UInt8} {s : Bytes} (h : v ≠ 0x05) :
    Request (v :: cmd :: rsv :: atyp :: s) (.failed [])
  | command {cmd rsv atyp : UInt8} {s : Bytes} (h : cmd ≠ 0x01) :
    Request (0x05 :: cmd :: rsv :: atyp :: s) (.failed (refusal 0x07))
  | addressType {rsv atyp : UInt8} {s : Bytes} (h4 : atyp ≠ 0x01) (h6 : atyp ≠ 0x04)
    (hd : atyp ≠ 0x03) : Request (0x05 :: 0x01 :: rsv :: atyp :: s) (.failed (refusal 0x01))
  | shortIpv4 {rsv : UInt8} {s : Bytes} (h : s.length < 4) :
    Request (0x05 :: 0x01 :: rsv :: 0x01 :: s) (.failed [])
  | shortIpv6 {rsv : UInt8} {s : Bytes} (h : s.length < 16) :
    Request (0x05 :: 0x01 :: rsv :: 0x04 :: s) (.failed [])
  | noLength {rsv : UInt8} : Request [0x05, 0x01, rsv, 0x03] (.failed [])
  | shortName {rsv n : UInt8} {s : Bytes} (h : s.length < n.toNat) :
    Request (0x05 :: 0x01 :: rsv :: 0x03 :: n :: s) (.failed [])
  | name {rsv n : UInt8} {name s : Bytes} (hlen : name.length = n.toNat)
    (hname : fromUtf8 name = none) :
    Request (0x05 :: 0x01 :: rsv :: 0x03 :: n :: (name ++ s)) (.failed (refusal 0x01))
  | shortPort {rsv : UInt8} {addr s : Bytes} {host : String} (haddr : Address addr host)
    (h : s.length < 2) : Request (0x05 :: 0x01 :: rsv :: (addr ++ s)) (.failed [])
  | target {rsv hi lo : UInt8} {addr s : Bytes} {host : String} (haddr : Address addr host) :
    Request (0x05 :: 0x01 :: rsv :: (addr ++ hi :: lo :: s)) (.accepted ⟨host, be16 hi lo⟩ s [])

/-- The whole stream. -/
inductive Session : Bytes → Outcome → Prop
  | shortHead {s : Bytes} (h : s.length < 2) : Session s (.failed [])
  | version {v n : UInt8} {s : Bytes} (h : v ≠ 0x05) : Session (v :: n :: s) (.failed [])
  | shortMethods {n : UInt8} {s : Bytes} (h : s.length < n.toNat) :
    Session (0x05 :: n :: s) (.failed [])
  | noMethod {n : UInt8} {methods s : Bytes} (hlen : methods.length = n.toNat)
    (h : 0x00 ∉ methods) : Session (0x05 :: n :: (methods ++ s)) (.failed [0x05, 0xFF])
  | greeted {n : UInt8} {methods s : Bytes} {o : Outcome} (hlen : methods.length = n.toNat)
    (h : 0x00 ∈ methods) (hrequest : Request s o) :
    Session (0x05 :: n :: (methods ++ s)) (o.after [0x05, 0x00])

/-! ## What the server does -/

/-- What is observed of a run. -/
def observe (r : Except Socks5Error Socks5Target × Conn) : Outcome :=
  match r with
  | (.ok target, c) => .accepted target c.inbox c.outbox
  | (.error _, c) => .failed c.outbox

section

variable {m : Socket Socks5Error Socks5Target} {c c' : Conn}

theorem observe_of_runs {target : Socks5Target} (h : Runs m c target c') :
    observe (m c) = .accepted target c'.inbox c'.outbox := by
  rw [h]
  rfl

theorem observe_of_fails {e : Socks5Error} (h : Fails m c e c') :
    observe (m c) = .failed c'.outbox := by
  rw [h]
  rfl

/-- A run that fails and writes nothing. -/
theorem observe_of_fails_quietly {s out : Bytes} {e : Socks5Error} (h : Fails m c e ⟨s, out⟩) :
    observe (m c) = (Outcome.failed []).after out := by
  rw [observe_of_fails h, Outcome.after, List.append_nil]

end

/-- An address is read to its end. -/
theorem runs_readHost {atyp : UInt8} {addr : Bytes} {host : String}
    (h : Address (atyp :: addr) host) (rest out : Bytes) :
    Runs (readHost atyp) ⟨addr ++ rest, out⟩ host ⟨rest, out⟩ := by
  cases h with
  | ipv4 a b c d => exact Runs.bind (runs_readExact _ [a, b, c, d] rest out rfl) (Runs.pure _ _)
  | ipv6 octets hlen => exact Runs.bind (runs_readExact _ addr rest out hlen) (Runs.pure _ _)
  | domainname n name host hlen hname => exact runs_readHost_name hlen hname rest out

/-- The request behind its four bytes of head. -/
theorem readConnectRequest_eq (v cmd rsv atyp : UInt8) (s out : Bytes) :
    readConnectRequest ⟨v :: cmd :: rsv :: atyp :: s, out⟩ =
      (if v ≠ socks5Version then
        fail (.protocol ("CONNECT request used SOCKS version " ++ hexByte v ++
          "; only 0x05 is supported"))
      else if cmd ≠ cmdConnect then do
        writeReply .commandNotSupported dummyBnd
        fail (.unsupportedCommand cmd)
      else do
        let host ← readHost atyp
        let portBuf ← readExact (.io earlyEof) 2
        return ⟨host, be16 (portBuf.get 0) (portBuf.get 1)⟩) ⟨s, out⟩ :=
  Runs.bind_eq (runs_readExact _ [v, cmd, rsv, atyp] s out rfl)

/-- A request whose host cannot be read. -/
theorem fails_readConnectRequest {rsv atyp : UInt8} {s s' out out' : Bytes} {e : Socks5Error}
    (h : Fails (readHost atyp) ⟨s, out⟩ e ⟨s', out'⟩) :
    Fails readConnectRequest ⟨0x05 :: 0x01 :: rsv :: atyp :: s, out⟩ e ⟨s', out'⟩ := by
  unfold Fails
  rw [readConnectRequest_eq]
  exact h.bind

theorem fails_readHost_name {n : UInt8} {name : Bytes} (hlen : name.length = n.toNat)
    (hname : fromUtf8 name = none) (s out : Bytes) :
    Fails (readHost 0x03) ⟨n :: (name ++ s), out⟩
      (.protocol "DOMAINNAME ATYP carried non-UTF-8 bytes") ⟨s, out ++ refusal 0x01⟩ := by
  refine Runs.bind_fails (runs_readExact _ [n] (name ++ s) out rfl) ?_
  refine Runs.bind_fails (runs_readExact _ name s out hlen) ?_
  dsimp only
  rw [hname]
  exact Runs.bind_fails (runs_writeAll _ s out) (fails_fail _ _)

theorem fails_readHost_type {atyp : UInt8} (h4 : atyp ≠ 0x01) (h6 : atyp ≠ 0x04)
    (hd : atyp ≠ 0x03) (s out : Bytes) :
    Fails (readHost atyp) ⟨s, out⟩ (.protocol ("unsupported ATYP " ++ hexByte atyp))
      ⟨s, out ++ refusal 0x01⟩ := by
  have hrefuse : readHost atyp = (do
      writeReply .generalFailure dummyBnd
      fail (.protocol ("unsupported ATYP " ++ hexByte atyp))) :=
    (if_neg h4).trans ((if_neg h6).trans (if_neg hd))
  rw [hrefuse]
  exact Runs.bind_fails (runs_writeAll _ s out) (fails_fail _ _)

theorem fails_request_version {v : UInt8} (h : v ≠ socks5Version) (cmd rsv atyp : UInt8)
    (s out : Bytes) :
    Fails readConnectRequest ⟨v :: cmd :: rsv :: atyp :: s, out⟩
      (.protocol ("CONNECT request used SOCKS version " ++ hexByte v ++
        "; only 0x05 is supported")) ⟨s, out⟩ := by
  unfold Fails
  rw [readConnectRequest_eq, if_pos h]
  exact fails_fail _ _

theorem fails_request_command {cmd : UInt8} (h : cmd ≠ cmdConnect) (rsv atyp : UInt8)
    (s out : Bytes) :
    Fails readConnectRequest ⟨0x05 :: cmd :: rsv :: atyp :: s, out⟩
      (.unsupportedCommand cmd) ⟨s, out ++ refusal 0x07⟩ := by
  unfold Fails
  rw [readConnectRequest_eq, if_neg (by decide), if_pos h]
  exact Runs.bind_fails (runs_writeAll _ s out) (fails_fail _ _)

/-- A request with an address is read but for the port. -/
theorem readConnectRequest_address {addr : Bytes} {host : String} (haddr : Address addr host)
    (rsv : UInt8) (s out : Bytes) :
    readConnectRequest ⟨0x05 :: 0x01 :: rsv :: (addr ++ s), out⟩ =
      (do
        let portBuf ← readExact (.io earlyEof) 2
        return ⟨host, be16 (portBuf.get 0) (portBuf.get 1)⟩ : Socket Socks5Error Socks5Target)
        ⟨s, out⟩ := by
  cases addr with
  | nil => cases haddr
  | cons atyp addr =>
    rw [List.cons_append, readConnectRequest_eq]
    exact Runs.bind_eq (runs_readHost haddr s out)

/-- A request is answered as the grammar says. -/
theorem observe_readConnectRequest {s : Bytes} {o : Outcome} (h : Request s o) (out : Bytes) :
    observe (readConnectRequest ⟨s, out⟩) = o.after out := by
  cases h with
  | shortHead h => exact observe_of_fails_quietly (fails_readExact _ s out h).bind
  | @version v cmd rsv atyp s h =>
    exact observe_of_fails_quietly (fails_request_version h cmd rsv atyp s out)
  | @command cmd rsv atyp s h => exact observe_of_fails (fails_request_command h rsv atyp s out)
  | @addressType rsv atyp s h4 h6 hd =>
    exact observe_of_fails (fails_readConnectRequest (fails_readHost_type h4 h6 hd s out))
  | @shortIpv4 rsv s h =>
    exact observe_of_fails_quietly (fails_readConnectRequest (fails_readExact _ s out h).bind)
  | @shortIpv6 rsv s h =>
    exact observe_of_fails_quietly (fails_readConnectRequest (fails_readExact _ s out h).bind)
  | noLength =>
    have heof := fails_readExact (Socks5Error.io earlyEof) [] out Nat.zero_lt_one
    exact observe_of_fails_quietly (fails_readConnectRequest heof.bind)
  | @shortName rsv n s h =>
    have hhost : Fails (readHost 0x03) ⟨n :: s, out⟩ (.io earlyEof) ⟨[], out⟩ :=
      Runs.bind_fails (runs_readExact _ [n] s out rfl) (fails_readExact _ s out h).bind
    exact observe_of_fails_quietly (fails_readConnectRequest hhost)
  | @name rsv n name s hlen hname =>
    exact observe_of_fails (fails_readConnectRequest (fails_readHost_name hlen hname s out))
  | @shortPort rsv addr s host haddr h =>
    rw [readConnectRequest_address haddr]
    exact observe_of_fails_quietly (fails_readExact _ s out h).bind
  | @target rsv hi lo addr s host haddr =>
    have hruns : Runs readConnectRequest ⟨0x05 :: 0x01 :: rsv :: (addr ++ hi :: lo :: s), out⟩
        ⟨host, be16 hi lo⟩ ⟨s, out⟩ :=
      (readConnectRequest_address haddr rsv _ out).trans
        (Runs.bind (runs_readExact _ [hi, lo] s out rfl) (Runs.pure _ _))
    rw [observe_of_runs hruns, Outcome.after, List.append_nil]

/-- The greeting behind its two bytes of head. -/
theorem negotiateNoAuth_eq (v n : UInt8) (s : Bytes) :
    negotiateNoAuth ⟨v :: n :: s, []⟩ =
      (if v ≠ socks5Version then
        fail (.protocol ("client offered SOCKS version " ++ hexByte v ++
          "; only SOCKS5 (0x05) is supported"))
      else do
        let methods ← readExact (.io earlyEof) n.toNat
        let chosen := if methodNoAuth ∈ methods.1 then methodNoAuth else methodNoAcceptable
        writeAll [socks5Version, chosen]
        if chosen = methodNoAcceptable then
          fail (.protocol "client offered no acceptable method (NO-AUTH required)")
        else return () : Socket Socks5Error Unit) ⟨s, []⟩ :=
  Runs.bind_eq (runs_readExact _ [v, n] s [] rfl)

theorem fails_greeting_version {v : UInt8} (h : v ≠ socks5Version) (n : UInt8) (s : Bytes) :
    Fails negotiateNoAuth ⟨v :: n :: s, []⟩
      (.protocol ("client offered SOCKS version " ++ hexByte v ++
        "; only SOCKS5 (0x05) is supported")) ⟨s, []⟩ := by
  unfold Fails
  rw [negotiateNoAuth_eq, if_pos h]
  exact fails_fail _ _

theorem fails_negotiateNoAuth_methods {n : UInt8} {methods : Bytes}
    (hlen : methods.length = n.toNat) (h : 0x00 ∉ methods) (s : Bytes) :
    Fails negotiateNoAuth ⟨0x05 :: n :: (methods ++ s), []⟩
      (.protocol "client offered no acceptable method (NO-AUTH required)")
      ⟨s, [0x05, 0xFF]⟩ := by
  have hchosen : (if methodNoAuth ∈ methods then methodNoAuth else methodNoAcceptable) = 0xFF :=
    if_neg h
  unfold Fails
  rw [negotiateNoAuth_eq, if_neg (by decide)]
  refine Runs.bind_fails (runs_readExact _ methods s [] hlen) ?_
  dsimp only
  rw [hchosen]
  exact Runs.bind_fails (runs_writeAll _ s []) (fails_fail _ _)

theorem runs_negotiateNoAuth_methods {n : UInt8} {methods : Bytes}
    (hlen : methods.length = n.toNat) (h : 0x00 ∈ methods) (s : Bytes) :
    Runs negotiateNoAuth ⟨0x05 :: n :: (methods ++ s), []⟩ () ⟨s, [0x05, 0x00]⟩ := by
  have hchosen : (if methodNoAuth ∈ methods then methodNoAuth else methodNoAcceptable) = 0x00 :=
    if_pos h
  unfold Runs
  rw [negotiateNoAuth_eq, if_neg (by decide)]
  refine Runs.bind (runs_readExact _ methods s [] hlen) ?_
  dsimp only
  rw [hchosen]
  exact Runs.bind (runs_writeAll _ s []) (Runs.pure _ _)

/-- A stream of the grammar is answered as the grammar says. -/
theorem observe_serve {s : Bytes} {o : Outcome} (h : Session s o) :
    observe (serve ⟨s, []⟩) = o := by
  cases h with
  | shortHead h => exact observe_of_fails (fails_readExact _ s [] h).bind.bind
  | @version v n s h => exact observe_of_fails (fails_greeting_version h n s).bind
  | @shortMethods n s h =>
    have hfails : Fails negotiateNoAuth ⟨0x05 :: n :: s, []⟩ (.io earlyEof) ⟨[], []⟩ := by
      unfold Fails
      rw [negotiateNoAuth_eq, if_neg (by decide)]
      exact (fails_readExact _ s [] h).bind
    exact observe_of_fails hfails.bind
  | @noMethod n methods s hlen h =>
    exact observe_of_fails (fails_negotiateNoAuth_methods hlen h s).bind
  | @greeted n methods s o hlen h hrequest =>
    rw [serve, Runs.bind_eq (runs_negotiateNoAuth_methods hlen h s)]
    exact observe_readConnectRequest hrequest _

/-! ## Every stream -/

theorem exists_append {s : Bytes} {n : Nat} (h : ¬ s.length < n) :
    ∃ b rest, s = b ++ rest ∧ b.length = n :=
  ⟨s.take n, s.drop n, (List.take_append_drop n s).symm, List.length_take_of_le (not_lt.mp h)⟩

/-- Behind an address stands a port, or less. -/
theorem exists_request_address {addr : Bytes} {host : String} (haddr : Address addr host)
    (rsv : UInt8) (s : Bytes) : ∃ o, Request (0x05 :: 0x01 :: rsv :: (addr ++ s)) o := by
  match s with
  | [] => exact ⟨_, .shortPort haddr (by decide)⟩
  | [b] => exact ⟨_, .shortPort haddr (by simp)⟩
  | hi :: lo :: s => exact ⟨_, .target haddr⟩

/-- A domain name, its port behind it. -/
theorem exists_request_name (rsv : UInt8) (s : Bytes) :
    ∃ o, Request (0x05 :: 0x01 :: rsv :: 0x03 :: s) o := by
  cases s with
  | nil => exact ⟨_, .noLength⟩
  | cons n s =>
    by_cases hshort : s.length < n.toNat
    · exact ⟨_, .shortName hshort⟩
    · obtain ⟨name, rest, rfl, hlen⟩ := exists_append hshort
      cases hname : fromUtf8 name with
      | none => exact ⟨_, .name hlen hname⟩
      | some host => exact exists_request_address (.domainname n name host hlen hname) rsv rest

/-- A version and a command that are served, with any type of address. -/
theorem exists_request_served (rsv atyp : UInt8) (s : Bytes) :
    ∃ o, Request (0x05 :: 0x01 :: rsv :: atyp :: s) o := by
  by_cases h4 : atyp = 0x01
  · subst h4
    match s with
    | a :: b :: c :: d :: s => exact exists_request_address (.ipv4 a b c d) rsv s
    | [] | [_] | [_, _] | [_, _, _] => exact ⟨_, .shortIpv4 (by simp)⟩
  · by_cases h6 : atyp = 0x04
    · subst h6
      by_cases hshort : s.length < 16
      · exact ⟨_, .shortIpv6 hshort⟩
      · obtain ⟨octets, rest, rfl, hlen⟩ := exists_append hshort
        exact exists_request_address (.ipv6 octets hlen) rsv rest
    · by_cases hd : atyp = 0x03
      · subst hd
        exact exists_request_name rsv s
      · exact ⟨_, .addressType h4 h6 hd⟩

theorem exists_request (s : Bytes) : ∃ o, Request s o := by
  match s with
  | v :: cmd :: rsv :: atyp :: s =>
    by_cases hv : v = 0x05
    · by_cases hcmd : cmd = 0x01
      · subst hv hcmd
        exact exists_request_served rsv atyp s
      · subst hv
        exact ⟨_, .command hcmd⟩
    · exact ⟨_, .version hv⟩
  | [] | [_] | [_, _] | [_, _, _] => exact ⟨_, .shortHead (by simp)⟩

theorem exists_session (s : Bytes) : ∃ o, Session s o := by
  match s with
  | v :: n :: s =>
    by_cases hv : v = 0x05
    · subst hv
      by_cases hshort : s.length < n.toNat
      · exact ⟨_, .shortMethods hshort⟩
      · obtain ⟨methods, rest, rfl, hlen⟩ := exists_append hshort
        by_cases hauth : 0x00 ∈ methods
        · obtain ⟨o, ho⟩ := exists_request rest
          exact ⟨_, .greeted hlen hauth ho⟩
        · exact ⟨_, .noMethod hlen hauth⟩
    · exact ⟨_, .version hv⟩
  | [] | [_] => exact ⟨_, .shortHead (by simp)⟩

/-- The server accepts and refuses exactly what the grammar says, writes what it says,
and leaves unread what it says. -/
theorem serve_grammar (stream : Bytes) (o : Outcome) :
    observe (serve ⟨stream, []⟩) = o ↔ Session stream o := by
  constructor
  · rintro rfl
    obtain ⟨o, ho⟩ := exists_session stream
    rwa [observe_serve ho]
  · exact observe_serve

/-! ## The length of a host -/

theorem length_asBytes_le (s : String) : (asBytes s).length ≤ 4 * s.length := by
  have h := Utf8.length_encode_le s.toList
  rwa [String.length_toList, ← Utf8.utf8_eq_encode] at h

theorem asBytes_of_fromUtf8 {b : Bytes} {s : String} (h : fromUtf8 b = some s) : asBytes s = b := by
  unfold fromUtf8 Cbor.ofUtf8? String.fromUTF8? at h
  split at h
  · rw [← Option.some.inj h]
    rfl
  · cases h

theorem Address.length_host_le {addr : Bytes} {host : String} (h : Address addr host) :
    (asBytes host).length ≤ 255 := by
  cases h with
  | ipv4 a b c d =>
    have hbytes := length_asBytes_le (Ipv4Addr.mk a b c d).toString
    have hchars := (Ipv4Addr.mk a b c d).length_toString
    omega
  | ipv6 octets hlen =>
    have hbytes := length_asBytes_le (Ipv6Addr.ofOctets octets hlen).toString
    have hchars := (Ipv6Addr.ofOctets octets hlen).length_toString
    omega
  | domainname n name host hlen hname =>
    have hn : n.toNat < 256 := n.toNat_lt
    rw [asBytes_of_fromUtf8 hname, hlen]
    omega

/-- A request that is accepted names an address. -/
theorem Request.exists_address {s rest written : Bytes} {target : Socks5Target}
    (h : Request s (.accepted target rest written)) : ∃ addr, Address addr target.host := by
  cases h with
  | target haddr => exact ⟨_, haddr⟩

/-- A host that the server has read fits into the 255 bytes of a domain name. -/
theorem length_host_of_accepted {stream rest written : Bytes} {target : Socks5Target}
    (h : observe (serve ⟨stream, []⟩) = .accepted target rest written) :
    (asBytes target.host).length ≤ 255 := by
  obtain ⟨o, ho⟩ := exists_session stream
  rw [observe_serve ho] at h
  cases ho with
  | @greeted n methods s o hlen hauth hrequest =>
    cases o with
    | accepted target' rest' written' =>
      obtain ⟨addr, haddr⟩ := hrequest.exists_address
      injection h with htarget
      exact htarget ▸ haddr.length_host_le
    | failed written' => cases h
  | _ => cases h

end Parseh.Tunnel
