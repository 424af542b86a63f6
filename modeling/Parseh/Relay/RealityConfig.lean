import Parseh.Relay.HostPort

/-!
# The REALITY config (`relay`, `reality/config.rs` and `reality/subprocess.rs`)

`validate` checks what the operator has written, `build_xray_config` makes the JSON of it
that the child process reads.  The first parses `local_listen` as a socket address, the
second cuts it, and `remote`, at its colons.

* `validate_eq_ok_iff`: what `validate` lets through;
* `inbound_iff`: the inbound is at the parsed address exactly if that is not in brackets;
* `outbound_iff`: the outbound goes to the host and port of `remote` exactly if that has
  one colon and no brackets;
* `preserved_iff` puts the two together.
-/

namespace Parseh.Relay

open Parseh.Lib Parseh.Wire Parseh.Tunnel Parseh.Agent

inductive RealityRole
  | server | client
  deriving DecidableEq

structure FallbackServer where
  host : String
  port : UInt16
  deriving DecidableEq

/-- `FallbackServer::default()`. -/
def FallbackServer.byDefault : FallbackServer := ⟨"www.cloudflare.com", 443⟩

structure RealityConfig where
  role : RealityRole
  serverName : String
  fallbackServer : FallbackServer
  privateKeyB64 : String
  localListen : String
  remote : Option String
  deriving DecidableEq

/-- `RealityConfig::default()`. -/
def RealityConfig.byDefault : RealityConfig where
  role := .client
  serverName := "www.cloudflare.com"
  fallbackServer := .byDefault
  privateKeyB64 := ""
  localListen := "127.0.0.1:18421"
  remote := none

inductive ConfigError
  | emptyServerName
  | emptyPrivateKey
  | privateKeyNotBase64 (len : Nat)
  | sniMismatch (server fallback : String)
  | zeroFallbackPort
  | emptyFallbackHost
  | nonLoopbackLocalListen (listen : String)
  | invalidLocalListen (listen : String)
  | clientMissingRemote
  deriving DecidableEq

/-! ## Validation -/

/-- The characters of a key, in either alphabet of base64. -/
def isKeyChar (c : Char) : Bool :=
  c.isAlphanum || c = '+' || c = '/' || c = '-' || c = '_' || c = '='

def validate (cfg : RealityConfig) : Except ConfigError Unit :=
  let pkTrim := trim cfg.privateKeyB64.toList
  let pkLen := (Utf8.encode pkTrim).length
  if isBlank cfg.serverName then .error .emptyServerName
  else if isBlank cfg.fallbackServer.host then .error .emptyFallbackHost
  else if cfg.fallbackServer.port = 0 then .error .zeroFallbackPort
  else if cfg.serverName ≠ cfg.fallbackServer.host then
    .error (.sniMismatch cfg.serverName cfg.fallbackServer.host)
  else if isBlank cfg.privateKeyB64 then .error .emptyPrivateKey
  else if ¬ (40 ≤ pkLen ∧ pkLen ≤ 64) ∨ ¬ pkTrim.all isKeyChar then
    .error (.privateKeyNotBase64 pkLen)
  else
    match SocketAddr.parse (asBytes cfg.localListen) with
    | none => .error (.invalidLocalListen cfg.localListen)
    | some parsed =>
      if !parsed.ip.isLoopback then .error (.nonLoopbackLocalListen cfg.localListen)
      else if cfg.role = .client ∧ cfg.remote.isNone then .error .clientMissingRemote
      else .ok ()

/-! ## Translation -/

/-- A `u16` in JSON. -/
def jsonU16 (n : UInt16) : Value := .number (.posInt n.toUInt64)

/-- Where the child process listens. -/
def inboundListen (cfg : RealityConfig) : String := (firstPart cfg.localListen).getD "127.0.0.1"

def inboundPort (cfg : RealityConfig) : UInt16 := (secondPort cfg.localListen).getD 18421

/-- Where it connects to. -/
def outboundAddress (cfg : RealityConfig) : String :=
  (cfg.remote.bind firstPart).getD "127.0.0.1"

def outboundPort (cfg : RealityConfig) : UInt16 := (cfg.remote.bind secondPort).getD 443

/-- The placeholder of a user's id. -/
def nilUuid : String := "00000000-0000-0000-0000-000000000000"

def logWarning : Value := .object [("loglevel", .string "warning")]

def buildXrayConfig (cfg : RealityConfig) : Value :=
  match cfg.role with
  | .client => .object [
      ("inbounds", .array [.object [
        ("listen", .string (inboundListen cfg)),
        ("port", jsonU16 (inboundPort cfg)),
        ("protocol", .string "socks"),
        ("settings", .object [("udp", .bool false)]),
        ("tag", .string "socks-in")]]),
      ("log", logWarning),
      ("outbounds", .array [.object [
        ("protocol", .string "vless"),
        ("settings", .object [
          ("vnext", .array [.object [
            ("address", .string (outboundAddress cfg)),
            ("port", jsonU16 (outboundPort cfg)),
            ("users", .array [.object [
              ("encryption", .string "none"),
              ("id", .string nilUuid)]])]])]),
        ("streamSettings", .object [
          ("network", .string "tcp"),
          ("realitySettings", .object [
            ("fingerprint", .string "chrome"),
            ("publicKey", .string ""),
            ("serverName", .string cfg.serverName),
            ("shortId", .string "")]),
          ("security", .string "reality")]),
        ("tag", .string "reality-out")]])]
  | .server => .object [
      ("inbounds", .array [.object [
        ("listen", .string (inboundListen cfg)),
        ("port", jsonU16 (inboundPort cfg)),
        ("protocol", .string "vless"),
        ("settings", .object [
          ("clients", .array [.object [("id", .string nilUuid)]]),
          ("decryption", .string "none")]),
        ("streamSettings", .object [
          ("network", .string "tcp"),
          ("realitySettings", .object [
            ("dest", .string (cfg.fallbackServer.host ++ ":" ++
              toString cfg.fallbackServer.port.toNat)),
            ("privateKey", .string cfg.privateKeyB64),
            ("serverNames", .array [.string cfg.serverName]),
            ("shortIds", .array [.string ""]),
            ("show", .bool false)]),
          ("security", .string "reality")]),
        ("tag", .string "reality-in")]]),
      ("log", logWarning),
      ("outbounds", .array [.object [
        ("protocol", .string "freedom"),
        ("tag", .string "direct")]])]

/-! ## What `validate` lets through -/

/-- A config that has passed all the checks. -/
structure Accepted (cfg : RealityConfig) : Prop where
  serverName : isBlank cfg.serverName = false
  fallbackPort : cfg.fallbackServer.port ≠ 0
  sni : cfg.serverName = cfg.fallbackServer.host
  key : isBlank cfg.privateKeyB64 = false
  keyLen : 40 ≤ (Utf8.encode (trim cfg.privateKeyB64.toList)).length ∧
    (Utf8.encode (trim cfg.privateKeyB64.toList)).length ≤ 64
  keyChars : (trim cfg.privateKeyB64.toList).all isKeyChar
  listen : ∃ addr, SocketAddr.parse (asBytes cfg.localListen) = some addr ∧ addr.ip.isLoopback
  remote : cfg.role = .client → ∃ r, cfg.remote = some r

/-- One check in front of the others. -/
theorem check_eq_ok_iff {ε : Type} {c : Prop} [Decidable c] {e : ε} {next : Except ε Unit} :
    (if c then .error e else next) = .ok () ↔ ¬ c ∧ next = .ok () := by
  split
  · next hc => simp [hc]
  · next hc => simp [hc]

theorem validate_eq_ok_iff (cfg : RealityConfig) : validate cfg = .ok () ↔ Accepted cfg := by
  unfold validate
  cases haddr : SocketAddr.parse (asBytes cfg.localListen) with
  | none =>
    refine iff_of_false (fun h => ?_) fun h => ?_
    · simp only [check_eq_ok_iff, reduceCtorEq, and_false] at h
    · obtain ⟨addr, hsome, -⟩ := h.listen
      rw [haddr] at hsome
      cases hsome
  | some addr =>
    simp only [check_eq_ok_iff, and_true]
    constructor
    · rintro ⟨hname, -, hport, hsni, hkey, hchars, hloop, hremote⟩
      obtain ⟨hlen, hall⟩ := not_or.mp hchars
      refine ⟨by simpa using hname, hport, not_not.mp hsni, by simpa using hkey, not_not.mp hlen,
        not_not.mp hall, ⟨addr, haddr, by simpa using hloop⟩, fun hrole => ?_⟩
      have hsome : ¬ cfg.remote.isNone := fun hnone => hremote ⟨hrole, hnone⟩
      exact Option.ne_none_iff_exists'.mp (mt Option.isNone_iff_eq_none.mpr hsome)
    · intro h
      obtain ⟨addr', haddr', hloop⟩ := h.listen
      obtain rfl := Option.some.inj (haddr.symm.trans haddr')
      have hhost : ¬ isBlank cfg.fallbackServer.host := by
        rw [← h.sni]
        simp [h.serverName]
      have hkey := not_or.mpr ⟨not_not.mpr h.keyLen, not_not.mpr h.keyChars⟩
      refine ⟨by simp [h.serverName], hhost, h.fallbackPort, not_not.mpr h.sni, by simp [h.key],
        hkey, by simp [hloop], ?_⟩
      rintro ⟨hrole, hnone⟩
      obtain ⟨r, hr⟩ := h.remote hrole
      rw [hr] at hnone
      cases hnone

/-- The operator has to supply a key. -/
example : validate .byDefault = .error .emptyPrivateKey := by decide

/-! ## The addresses in the JSON -/

/-- The inbound is at the loopback address that `local_listen` parses to. -/
def InboundPreserved (cfg : RealityConfig) : Prop :=
  ∃ addr listen, SocketAddr.parse (asBytes cfg.localListen) = some addr ∧ addr.ip.isLoopback ∧
    walk (buildXrayConfig cfg) ["inbounds", "0", "listen"] = some (.string listen) ∧
    NamesIp listen addr.ip ∧
    walk (buildXrayConfig cfg) ["inbounds", "0", "port"] = some (jsonU16 addr.port)

/-- The outbound goes to the host and the port of `remote`, which has both. -/
def OutboundPreserved (cfg : RealityConfig) : Prop :=
  ∃ r host port, cfg.remote = some r ∧ IsHostPort r host port ∧
    walk (buildXrayConfig cfg) ["outbounds", "0", "settings", "vnext", "0", "address"] =
      some (.string host) ∧
    walk (buildXrayConfig cfg) ["outbounds", "0", "settings", "vnext", "0", "port"] =
      some (jsonU16 port)

/-- The addresses in the JSON are those of the config. -/
structure Preserved (cfg : RealityConfig) : Prop where
  inbound : InboundPreserved cfg
  outbound : cfg.role = .client → OutboundPreserved cfg

theorem jsonU16_inj {m n : UInt16} : jsonU16 m = jsonU16 n ↔ m = n := by
  refine ⟨fun h => ?_, fun h => h ▸ rfl⟩
  injection h with h
  injection h with h
  have hnat := congrArg UInt64.toNat h
  rw [UInt16.toNat_toUInt64, UInt16.toNat_toUInt64] at hnat
  exact UInt16.toNat_inj.mp hnat

variable {cfg : RealityConfig}

theorem walk_listen (cfg : RealityConfig) :
    walk (buildXrayConfig cfg) ["inbounds", "0", "listen"] = some (.string (inboundListen cfg)) := by
  unfold buildXrayConfig
  cases cfg.role <;> rfl

theorem walk_inboundPort (cfg : RealityConfig) :
    walk (buildXrayConfig cfg) ["inbounds", "0", "port"] = some (jsonU16 (inboundPort cfg)) := by
  unfold buildXrayConfig
  cases cfg.role <;> rfl

theorem walk_address (h : cfg.role = .client) :
    walk (buildXrayConfig cfg) ["outbounds", "0", "settings", "vnext", "0", "address"] =
      some (.string (outboundAddress cfg)) := by
  unfold buildXrayConfig
  rw [h]
  rfl

theorem walk_outboundPort (h : cfg.role = .client) :
    walk (buildXrayConfig cfg) ["outbounds", "0", "settings", "vnext", "0", "port"] =
      some (jsonU16 (outboundPort cfg)) := by
  unfold buildXrayConfig
  rw [h]
  rfl

theorem inbound_iff {addr : SocketAddr}
    (haddr : SocketAddr.parse (asBytes cfg.localListen) = some addr) (hloop : addr.ip.isLoopback) :
    InboundPreserved cfg ↔ cfg.localListen.toList.head? ≠ some '[' := by
  unfold InboundPreserved
  rw [← namesAddr_iff haddr "127.0.0.1" 18421, walk_listen, walk_inboundPort]
  simp only [Option.some.injEq, Value.string.injEq, jsonU16_inj]
  constructor
  · rintro ⟨addr', listen, haddr', -, rfl, hip, hport⟩
    obtain rfl := Option.some.inj (haddr.symm.trans haddr')
    exact ⟨hip, hport⟩
  · rintro ⟨hip, hport⟩
    exact ⟨addr, _, haddr, hloop, rfl, hip, hport⟩

theorem outbound_iff (hrole : cfg.role = .client) :
    OutboundPreserved cfg ↔ ∃ r, cfg.remote = some r ∧ PlainHostPort r := by
  unfold OutboundPreserved
  rw [walk_address hrole, walk_outboundPort hrole]
  simp only [Option.some.injEq, Value.string.injEq, jsonU16_inj]
  refine exists_congr fun r => ?_
  constructor
  · rintro ⟨host, port, hr, hhp, haddress, hport⟩
    rw [outboundAddress, hr] at haddress
    rw [outboundPort, hr] at hport
    exact ⟨hr, (target_iff r "127.0.0.1" 443).mp ⟨host, port, hhp, haddress, hport⟩⟩
  · rintro ⟨hr, hplain⟩
    obtain ⟨host, port, hhp, haddress, hport⟩ := (target_iff r "127.0.0.1" 443).mpr hplain
    refine ⟨host, port, hr, hhp, ?_, ?_⟩
    · rw [outboundAddress, hr]
      exact haddress
    · rw [outboundPort, hr]
      exact hport

/-- For every config that `validate` accepts: the JSON has its addresses if and only if
`local_listen` does not begin with a bracket and, for a client, `remote` is a host that is
not blank, one colon and a number below 2^16, without a bracket in front. -/
theorem preserved_iff (cfg : RealityConfig) (h : validate cfg = .ok ()) :
    Preserved cfg ↔ cfg.localListen.toList.head? ≠ some '[' ∧
      (cfg.role = .client → ∃ r, cfg.remote = some r ∧ PlainHostPort r) := by
  obtain ⟨addr, haddr, hloop⟩ := ((validate_eq_ok_iff cfg).mp h).listen
  constructor
  · rintro ⟨hin, hout⟩
    exact ⟨(inbound_iff haddr hloop).mp hin, fun hrole => (outbound_iff hrole).mp (hout hrole)⟩
  · rintro ⟨hin, hout⟩
    exact ⟨(inbound_iff haddr hloop).mpr hin, fun hrole => (outbound_iff hrole).mpr (hout hrole)⟩

/-- The config of the tests. -/
def goodConfig : RealityConfig where
  role := .client
  serverName := "www.cloudflare.com"
  fallbackServer := ⟨"www.cloudflare.com", 443⟩
  privateKeyB64 := "AAAAAAAAAAAAAAAAAAAAAAAAAAAAAAAAAAAAAAAAAAA="
  localListen := "127.0.0.1:18421"
  remote := some "203.0.113.1:443"

theorem preserved_goodConfig : validate goodConfig = .ok () ∧ Preserved goodConfig := by
  have hvalid : validate goodConfig = .ok () := by decide +kernel
  have hplain : PlainHostPort "203.0.113.1:443" :=
    ⟨"203.0.113.1".toList, "443".toList, by decide, by decide, by decide, by decide, by decide,
      by decide⟩
  exact ⟨hvalid, (preserved_iff goodConfig hvalid).mpr ⟨by decide, fun _ => ⟨_, rfl, hplain⟩⟩⟩

/-- The same relay on the IPv6 loopback, at another port. -/
def loopback6Config : RealityConfig := { goodConfig with localListen := "[::1]:18422" }

/-- The same relay with a bridge that is named without its port. -/
def portlessConfig : RealityConfig := { goodConfig with remote := some "bridge.example" }

/-- Both are accepted.  The first is told to listen on `[` at the default port, and the
second's bridge gets the port 443. -/
theorem accepted_not_preserved :
    (validate loopback6Config = .ok () ∧ inboundListen loopback6Config = "[" ∧
      inboundPort loopback6Config = 18421 ∧ ¬ Preserved loopback6Config) ∧
    validate portlessConfig = .ok () ∧ parseHostPort "bridge.example" = none ∧
      outboundPort portlessConfig = 443 ∧ ¬ Preserved portlessConfig := by
  refine ⟨⟨by decide +kernel, by decide +kernel, by decide +kernel, fun hpres => ?_⟩,
    by decide +kernel, by decide +kernel, by decide +kernel, fun hpres => ?_⟩
  · have hvalid : validate loopback6Config = .ok () := by decide +kernel
    obtain ⟨addr, haddr, hloop⟩ := ((validate_eq_ok_iff _).mp hvalid).listen
    exact (inbound_iff haddr hloop).mp hpres.inbound rfl
  · obtain ⟨r, host, port, hr, ⟨hparse, -⟩, -⟩ := hpres.outbound rfl
    obtain rfl := Option.some.inj hr
    have hnone : parseHostPort "bridge.example" = none := by decide +kernel
    rw [hnone] at hparse
    cases hparse

end Parseh.Relay
