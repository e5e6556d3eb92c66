import TetherDesk.Net.Http
import TetherDesk.Relay.Conn

namespace TetherDesk.Relay

open TetherDesk.Net TetherDesk.Secure

def queryParam (target : Bytes) (name : String) : Bytes :=
  if !target.contains 63 then []
  else
    let qs := (target.dropWhile (· ≠ 63)).drop 1
    match (qs.splitOn 38).find? fun kv => kv.contains 61 ∧ kv.takeWhile (· ≠ 61) = ascii name with
    | none => []
    | some kv => (kv.dropWhile (· ≠ 61)).drop 1

def validId (id : Bytes) : Bool := id.length = 9 ∧ id.all fun c => 48 ≤ c ∧ c ≤ 57

def validHex (s : Bytes) (n : Nat) : Bool :=
  s.length = n ∧ s.all fun c => (48 ≤ c ∧ c ≤ 57) ∨ (97 ≤ c ∧ c ≤ 102)

def randomHex (r : Bytes) : Bytes := r.flatMap hexByte

-- The arguments of http_response.
structure Response where
  code : Nat
  status : String
  type : Bytes
  body : Bytes
  extra : Bytes

-- The text that snprintf formats.
def Response.header (r : Response) : Bytes :=
  ascii "HTTP/1.1 " ++ ascii (toString r.code) ++ ascii " " ++ ascii r.status ++ crlf ++
    ascii "Server: TetherDesk-Relay" ++ crlf ++
    ascii "Content-Type: " ++ r.type ++ crlf ++ ascii "Content-Length: " ++ ascii (toString r.body.length) ++
      crlf ++
    (if (findSub (ascii "Cache-Control") r.extra).isSome then [] else ascii "Cache-Control: no-cache" ++ crlf) ++
    ascii "X-Content-Type-Options: nosniff" ++ crlf ++ r.extra ++ ascii "Connection: close" ++ crlf ++ crlf

-- sizeof hdr
def hdrSize : Nat := 768

-- The n bytes that are copied from hdr, n the length of the whole text: a text that
-- does not fit is cut for its terminator, and behind the buffer comes what is there.
def hdrBytes (text : Bytes) (beyond : Nat → UInt8) : Bytes :=
  if text.length < hdrSize then text
  else text.take (hdrSize - 1) ++ 0 :: (List.range (text.length - hdrSize)).map beyond

def Response.bytes (r : Response) (beyond : Nat → UInt8) : Bytes := hdrBytes r.header beyond ++ r.body

def textResponse (code : Nat) (status text : String) : Response :=
    ⟨code, status, ascii "text/plain", ascii text ++ [10], []⟩

def mimeTypes : List (String × String) :=
  [(".html", "text/html; charset=utf-8"), (".js", "text/javascript"), (".wasm", "application/wasm"),
    (".css", "text/css"), (".png", "image/png"), (".webp", "image/webp"), (".ico", "image/x-icon"),
    (".svg", "image/svg+xml")]

def mimeType (path : Bytes) : Bytes :=
  match mimeTypes.find? fun m => (ascii m.1).isSuffixOf path with
  | some m => ascii m.2
  | none => ascii "application/octet-stream"

-- What the environment answers while one connection is read: the clock, the file of a
-- path, what rd_random writes, and what is in memory behind the buffer of a header.
structure Io where
  now : Nat
  file : Bytes → FileRead
  random : Fin 16 → UInt8
  beyond : Nat → UInt8

def Io.ticket (io : Io) : Bytes := randomHex (List.ofFn io.random)

-- The parts of a request that handle_http looks at; key is some when it asks for a
-- WebSocket.
structure Request where
  method : Bytes
  target : Bytes
  ip : Option Bytes
  key : Option Bytes

def Request.path (r : Request) : Bytes := r.target.takeWhile (· ≠ 63)

def forwardedIp (headers : Bytes) : Option Bytes :=
  match rdHttpHeader headers "Fly-Client-IP" 256 <|> rdHttpHeader headers "True-Client-IP" 256 <|>
      rdHttpHeader headers "X-Forwarded-For" 256 with
  | none => none
  | some fwd =>
      let ip := (fwd.takeWhile (· ≠ 44)).dropWhile (· = 32)
      if ip ≠ [] ∧ ip.length < 64 then some ip else none

def Request.read (req : Bytes) : Request :=
  let eol := (findSub crlf req).getD req.length
  let (method, target) := firstWords (req.take eol)
  let headers := req.drop (eol + 2)
  let upgrade := ((rdHttpHeader headers "Upgrade" 64).getD []).map toLower
  let key :=
    if (findSub (ascii "websocket") (cStr upgrade)).isSome then rdHttpHeader headers "Sec-WebSocket-Key"
      128 else none
  ⟨method, target, forwardedIp headers, key⟩

def headerEnd : Bytes := crlf ++ crlf

-- A complete request at the start of the input and the bytes behind it. A header end
-- at position 0 counts as none.
def Conn.request (c : Conn) : Option (Request × Bytes) :=
  match findSub headerEnd c.inn with
  | none => none
  | some 0 => none
  | some (k + 1) => some (Request.read (c.inn.take (k + 3)), rdBufConsume c.inn (k + 5))

-- The file that serve_static looks for.
def staticPath (target : Bytes) : Bytes :=
  let path := target.takeWhile fun ch => ch ≠ 63 ∧ ch ≠ 35
  let path := if path = ascii "/" ∨ path = [] then ascii "/home.html" else path
  let path := if path = ascii "/app" then ascii "/index.html" else path
  if path = ascii "/get" then ascii "/get.html" else path

def Conn.acceptUpgrade (cr : Crypto) (c : Conn) (key : Bytes) : Conn :=
  { c with
    out := c.out ++ ascii "HTTP/1.1 101 Switching Protocols" ++ crlf ++ ascii "Upgrade: websocket" ++ crlf ++
      ascii "Connection: Upgrade" ++ crlf ++ ascii "Sec-WebSocket-Accept: " ++ rdWsAcceptKey cr key ++
        crlf ++ crlf }

section

variable (cr : Crypto) (s : Globals) (uid : Nat)

def Globals.respond (r : Response) (io : Io) : Globals :=
  s.modify uid fun c => { c with out := c.out ++ r.bytes io.beyond, closeAfterFlush := true }

def Globals.respondText (code : Nat) (status text : String) (io : Io) : Globals :=
    s.respond uid (textResponse code status text) io

-- none when reading the file throws.
def staticResponse (webRoot target : Bytes) (file : Bytes → FileRead) : Option Response :=
  let path := staticPath target
  if (findSub (ascii "..") path).isSome ∨ 92 ∈ path ∨
    37 ∈ path then some (textResponse 400 "Bad Request" "bad path")
  else
    match file (cStr (webRoot ++ path)) with
    | .absent => some (textResponse 404 "Not Found" "not found")
    | .throws => none
    | .body body =>
        let extra := ascii "Strict-Transport-Security: max-age=31536000" ++ crlf
        let extra :=
          if (ascii "/assets/").isPrefixOf path then extra ++ ascii "Cache-Control: public, max-age=86400" ++
            crlf else extra
        let extra :=
          if (ascii "/download/").isPrefixOf path then
            extra ++ ascii "Content-Disposition: attachment; filename=\"" ++ path.drop 10 ++ ascii "\"" ++ crlf
          else extra
        some ⟨200, "OK", mimeType path, body, cStr extra⟩

def Globals.serveStatic (target : Bytes) (io : Io) : Globals :=
  match staticResponse s.webRoot target io.file with
  | some r => s.respond uid r io
  | none => { s with thrown := true }

-- c.kind and c.id are set and the upgrade is accepted; from here on what comes in are
-- frames.
def Globals.upgrade (kind : Kind) (id key : Bytes) : Globals :=
  let s := s.modify uid fun c => Conn.acceptUpgrade cr { c with kind := kind, id := id } key
  { s with past := { s.past with
      received := Function.update s.past.received uid (((s.find uid).map Conn.inn).getD []) } }

-- The same host is reconnecting.
def Globals.retireStale (id : Bytes) (h : HostEntry) : Globals :=
  match h.ctl with
  | none => s
  | some old =>
      let s := { s with hosts := Function.update s.hosts id (some { h with ctl := none }) }
      (s.wsClose old 1001 "replaced").killConn old

-- GET /host; true where handle_http goes on to the frames behind the request.
def Globals.hostRequest (c : Conn) (target key : Bytes) (io : Io) : Bool × Globals :=
  let id := queryParam target "id"
  let hkey := queryParam target "key"
  if !validId id ∨ !validHex hkey 32 then (false, s.respondText c.uid 400 "Bad Request" "bad id" io)
  else
    let h := (s.hosts id).getD ⟨[], none⟩
    if h.ctl ≠ none ∧ h.key ≠ hkey then (false, s.respondText c.uid 409 "Conflict" "id in use" io)
    else
      let s := s.retireStale id h
      let s := { s with hosts := Function.update s.hosts id (some ⟨hkey, some c.uid⟩) }
      (true, (s.upgrade cr c.uid .HostCtl id key).log (ascii "host " ++ id ++ ascii " online from " ++ c.ip))

-- GET /data
def Globals.dataRequest (c : Conn) (target key : Bytes) (io : Io) : Bool × Globals :=
  let id := queryParam target "id"
  let hkey := queryParam target "key"
  let t := queryParam target "ticket"
  let refused := (false, s.respondText c.uid 403 "Forbidden" "bad ticket" io)
  match s.hosts id, (s.tickets t).bind s.find with
  | some h, some viewer =>
      if h.key ≠ hkey ∨ viewer.id ≠ id then refused
      else
        let s := (s.dropTicket t).modify viewer.uid fun v => { v with ticket := [] }
        let s := s.upgrade cr c.uid .HostData id key
        let s := s.modify c.uid fun c => { c with peer := some viewer.uid }
        let s := s.modify viewer.uid fun v => { v with peer := some c.uid }
        let s := { s with past := { s.past with
          pairs := s.past.pairs ++ [Pairing.mk c.uid viewer.uid t id hkey h.key] } }
        let s := viewer.pending.foldl (fun s m => s.wsSend (some viewer.uid) c.uid RD_WS_BINARY m) s
        (true, s.modify viewer.uid fun v => { v with pending := [], pendingBytes := 0 })
  | _, _ => refused

-- GET /v/ID
def Globals.viewerRequest (c : Conn) (path key : Bytes) (io : Io) : Bool × Globals :=
  let id := path.drop 3
  let s := s.upgrade cr c.uid .Viewer id key
  match if validId id then (s.hosts id).bind HostEntry.ctl else none with
  | none => (false, s.wsClose c.uid 4404 "offline")
  | some ctl =>
      let s := s.modify c.uid fun c => { c with ticket := io.ticket }
      let s := { s with tickets := Function.update s.tickets io.ticket (some c.uid) }
      let s := { s with past := { s.past with issued := s.past.issued ++ [(io.ticket, c.uid, id)] } }
      (true, s.wsSend none ctl RD_WS_TEXT (ascii "open " ++ io.ticket ++ ascii " " ++ c.ip))

def Globals.handleRequest (c : Conn) (r : Request) (io : Io) : Bool × Globals :=
  match r.key with
  | none =>
      (false,
        if r.method ≠ ascii "GET" ∧
          r.method ≠ ascii "HEAD" then s.respondText c.uid 405 "Method Not Allowed" "no" io
        else if r.path = ascii "/healthz" then s.respondText c.uid 200 "OK" "ok" io
        else s.serveStatic c.uid r.target io)
  | some key =>
      if r.path = ascii "/host" then s.hostRequest cr c r.target key io
      else if r.path = ascii "/data" then s.dataRequest cr c r.target key io
      else if (ascii "/v/").isPrefixOf r.path then s.viewerRequest cr c r.path key io
      else (false, s.respondText c.uid 404 "Not Found" "not found" io)

def Globals.handleHttp (io : Io) : Globals :=
  match s.find uid with
  | none => s
  | some c =>
      match c.request with
      | none =>
          if c.inn.length > 16384 then s.respondText uid 431 "Request Header Fields Too Large" "too large" io else s
      | some (r, rest) =>
          let c := { c with inn := rest, ip := r.ip.getD c.ip }
          let (goesOn, s) := (s.modify uid fun _ => c).handleRequest cr c r io
          if goesOn then (Globals.wsLoop false (rest.length + 1) s uid).2 else s

end

end TetherDesk.Relay
