import SimpleSandbox.Policy
import SimpleSandbox.ChunkReader
import Mathlib.Logic.Relation

/-!
# The CONNECT proxy

The crate `sandbox-proxy`: the allow keys, `handle_client` and `relay`.  A client
connection is the sequence of chunks its reads return, the end of the sequence being the
end of the stream.  Writes to the client and upstream do not fail.
-/

namespace SimpleSandbox

open RustText

/-! ## Allow keys -/

/-- `normalize_allow`; a set is given by its elements. -/
def normalizeAllow (allow : List String) : List String :=
  allow.map fun s =>
    let s := toAsciiLowercase (trim s)
    if containsChar s ':' then s else s ++ ":443"

/-- `allow_from_endpoints` -/
def allowFromEndpoints (endpoints : List (String × UInt16)) : List String :=
  endpoints.map fun (host, port) => toAsciiLowercase host ++ ":" ++ decimal port.toNat

/-- The endpoint pairs `maybe_start_proxy` passes on. -/
def endpointPairs (policy : NetworkPolicy) : List (String × UInt16) :=
  policy.endpoints.map fun e => (e.host, e.port)

/-- `is_allowed` -/
def isAllowed (allow : List String) (host : String) (port : UInt16) : Bool :=
  allow.contains (toAsciiLowercase host ++ ":" ++ decimal port.toNat)

/-! ## One client -/

inductive ProxyEvent where
  | status (line : String)                  -- written to the client
  | dial (address : String)                 -- `TcpStream::connect`
  | relay (source : List (List UInt8))      -- `relay`, with what the client socket still holds
deriving DecidableEq

def methodNotAllowed : String := "HTTP/1.1 405 Method Not Allowed\r\nConnection: close\r\n\r\n"
def forbidden : String := "HTTP/1.1 403 Forbidden\r\nConnection: close\r\n\r\n"
def badGateway : String := "HTTP/1.1 502 Bad Gateway\r\nConnection: close\r\n\r\n"
def established : String := "HTTP/1.1 200 Connection Established\r\n\r\n"

def isNewline (b : UInt8) : Bool := b == 10

/-- `read_line` into an empty string; `none` is its error for a line that is not UTF-8. -/
def readTextLine (r : ChunkReader UInt8) : Option String × ChunkReader UInt8 :=
  (fromUtf8 (r.readUnit isNewline).1, (r.readUnit isNewline).2)

/-- The loop that drains the headers.  The outer `none` means that the fuel ran out, the
    inner one a read error. -/
def drainHeaders : ℕ → ChunkReader UInt8 → Option (Option (ChunkReader UInt8))
  | 0, _ => none
  | fuel + 1, r =>
    match readTextLine r with
    | (none, _) => some none
    | (some line, r) =>
      if line = "\r\n" ∨ line = "\n" ∨ line = "" then some (some r) else drainHeaders fuel r

/-- The address of a CONNECT target. -/
def targetKey (target : String) : String :=
  let target := toAsciiLowercase target
  if containsChar target ':' then target else target ++ ":443"

/-- What follows the head.  `into_inner` gives the socket back; what the reader had
    buffered is gone. -/
def answer (allow : List String) (connect : String → Bool) (requestLine : String)
    (r : ChunkReader UInt8) : List ProxyEvent :=
  match splitWhitespace requestLine with
  | method :: target :: _ =>
    if eqIgnoreAsciiCase method "CONNECT" then
      let key := targetKey target
      if allow.contains key then
        if connect key then [.dial key, .status established, .relay r.source]
        else [.dial key, .status badGateway]
      else [.status forbidden]
    else [.status methodNotAllowed]
  | _ => [.status methodNotAllowed]

/-- `handle_client` with the outcome of each dial. -/
def handleClient (allow : List String) (connect : String → Bool) (fuel : ℕ)
    (chunks : List (List UInt8)) : Option (List ProxyEvent) :=
  match readTextLine (.ofChunks chunks) with
  | (none, _) => some []
  | (some requestLine, r) =>
    if requestLine = "" then some []
    else
      match drainHeaders fuel r with
      | none => none
      | some none => some []
      | some (some r) => some (answer allow connect requestLine r)

/-! ## Relaying -/

/-- One of the two copying tasks: what its socket still delivers, what it has read and not
    yet written, and what it has written. -/
structure CopyTask where
  source : List UInt8
  buf : List UInt8 := []
  sink : List UInt8 := []
  ended : Bool := false

/-- One step of a task: a read of at most 16 KiB, a partial write of `write_all`, or the
    end of the source. -/
inductive CopyStep : CopyTask → CopyTask → Prop
  | read (t : CopyTask) (n : ℕ) (hpos : 0 < n) (hcap : n ≤ 16 * 1024)
      (hsource : n ≤ t.source.length) (hidle : t.buf = []) (hopen : t.ended = false) :
      CopyStep t { t with source := t.source.drop n, buf := t.source.take n }
  | write (t : CopyTask) (n : ℕ) (hpos : 0 < n) (hbuf : n ≤ t.buf.length)
      (hopen : t.ended = false) :
      CopyStep t { t with buf := t.buf.drop n, sink := t.sink ++ t.buf.take n }
  | finish (t : CopyTask) (hsource : t.source = []) (hidle : t.buf = [])
      (hopen : t.ended = false) : CopyStep t { t with ended := true }

/-- The tasks of `relay`: client to upstream, and back. -/
structure Relay where
  up : CopyTask
  down : CopyTask

/-- The tasks run in any order. -/
inductive RelayStep : Relay → Relay → Prop
  | up (r : Relay) (t : CopyTask) (h : CopyStep r.up t) : RelayStep r { r with up := t }
  | down (r : Relay) (t : CopyTask) (h : CopyStep r.down t) : RelayStep r { r with down := t }

/-- `relay` begins with what the two sockets deliver. -/
def Relay.start (client upstream : List UInt8) : Relay where
  up := { source := client }
  down := { source := upstream }

/-- `join!` returns. -/
def Relay.Joined (r : Relay) : Prop := r.up.ended = true ∧ r.down.ended = true

end SimpleSandbox
