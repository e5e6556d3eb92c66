import TetherDesk.Host.Messages
import TetherDesk.Net.Http

namespace TetherDesk.Host

open TetherDesk.Net TetherDesk.Secure

def headerEnd : Bytes := crlf ++ crlf

def mimeTypes : List (String × String) :=
  [(".html", "text/html; charset=utf-8"), (".js", "text/javascript"), (".wasm", "application/wasm"),
    (".css", "text/css"), (".svg", "image/svg+xml"), (".png", "image/png"), (".ico", "image/x-icon"),
    (".json", "application/json")]

def mimeType (path : Bytes) : Bytes :=
  match mimeTypes.find? fun m => (ascii m.1).isSuffixOf path with
  | some m => ascii m.2
  | none => ascii "application/octet-stream"

def kFallbackPage : Bytes :=
  ascii "<!doctype html><meta charset=utf-8><title>TetherDesk</title>" ++
  ascii "<body style=\"font:16px system-ui;max-width:640px;margin:60px auto;padding:0 16px\">" ++
  ascii "<h1>TetherDesk host is running</h1>" ++
  ascii "<p>The web viewer has not been built, so there is nothing to serve here yet.</p>" ++
  ascii "<p>Build it with <code>./build.sh web</code> (needs Emscripten), or connect with the native " ++
  ascii "<code>tetherdesk</code> viewer.</p></body>"

def httpResponse (code : Nat) (status : String) (type body : Bytes) : Bytes :=
  ascii "HTTP/1.1 " ++ decimal code ++ ascii " " ++ ascii status ++ crlf ++ ascii "Server: TetherDesk" ++ crlf ++
    ascii "Content-Type: " ++ type ++ crlf ++ ascii "Content-Length: " ++ decimal body.length ++ crlf ++
    ascii "Cache-Control: no-cache" ++ crlf ++ ascii "X-Content-Type-Options: nosniff" ++ crlf ++
    ascii "Connection: close" ++ crlf ++ crlf ++ body

def Conn.respond (c : Conn) (code : Nat) (status : String) (type body : Bytes) : Conn :=
  { c with out := c.out ++ httpResponse code status type body, closeAfterFlush := true }

def Conn.respondText (c : Conn) (code : Nat) (status text : String) : Conn :=
  c.respond code status (ascii "text/plain") (ascii text ++ [10])

-- serve_file, and whether reading the file threw.
def Conn.serveFile (c : Conn) (webRoot : Bytes) (readFile : Bytes → FileRead) (target : Bytes) : Bool × Conn :=
  let path := target.takeWhile fun ch => ch ≠ 63 ∧ ch ≠ 35
  let path := if path = [] ∨ path = ascii "/" then ascii "/index.html" else path
  if byteAt path 0 ≠ 47 ∨ (findSub (ascii "..") path).isSome ∨ 92 ∈ path ∨ 37 ∈ path then
    (false, c.respondText 400 "Bad Request" "bad path")
  else
    match if webRoot ≠ [] then readFile (cStr (webRoot ++ path)) else .absent with
    | .body body => (false, c.respond 200 "OK" (mimeType path) body)
    | .absent =>
        (false,
          if path = ascii "/index.html" then c.respond 200 "OK" (ascii "text/html; charset=utf-8") kFallbackPage
          else c.respondText 404 "Not Found" "not found")
    | .throws => (true, c)

-- One response, or an exception before it.
theorem Conn.serveFile_cases (c : Conn) (webRoot : Bytes) (readFile : Bytes → FileRead) (target : Bytes) :
    (∃ out, c.serveFile webRoot readFile target = (false, { c with out := out, closeAfterFlush := true })) ∨
      c.serveFile webRoot readFile target = (true, c) := by
  unfold Conn.serveFile
  dsimp only
  generalize (target.takeWhile fun ch => ch ≠ 63 ∧ ch ≠ 35) = path
  generalize (if path = [] ∨ path = ascii "/" then ascii "/index.html" else path) = path
  split
  · exact .inl ⟨_, rfl⟩
  generalize (if webRoot ≠ [] then readFile (cStr (webRoot ++ path)) else .absent) = file
  cases file with
  | body body => exact .inl ⟨_, rfl⟩
  | throws => exact .inr rfl
  | absent =>
      dsimp only
      split
      · exact .inl ⟨_, rfl⟩
      · exact .inl ⟨_, rfl⟩

-- Drop the body of what is queued, keep the headers.
def Conn.dropBody (c : Conn) : Conn :=
  match findSub headerEnd c.out with
  | none => c
  | some k => { c with out := c.out.take (k + 4) }

def upgradeResponse (accept : Bytes) : Bytes :=
  ascii "HTTP/1.1 101 Switching Protocols" ++ crlf ++ ascii "Upgrade: websocket" ++ crlf ++
    ascii "Connection: Upgrade" ++
    crlf ++ ascii "Sec-WebSocket-Accept: " ++ accept ++ crlf ++ crlf

section Requests

variable {σ : Type} (cr : Crypto) (plat : Platform σ) (s : Server σ) (c : Conn)

-- handle_http up to its call of handle_ws_messages, and whether it threw.
def Conn.handleHttp (webRoot : Bytes) (readFile : Bytes → FileRead) : Bool × Conn :=
  match findSub headerEnd c.inn with
  | none =>
      (false, if c.inn.length > 16384 then c.respondText 431 "Request Header Fields Too Large" "too large" else c)
  | some k =>
      let req := c.inn.take (k + 2)
      let c := { c with inn := rdBufConsume c.inn (k + 4) }
      let eol := (findSub crlf req).getD req.length
      let (method, target) := firstWords (req.take eol)
      let headers := req.drop (eol + 2)
      let upgrade := ((rdHttpHeader headers "Upgrade" 64).getD []).map toLower
      if (findSub (ascii "websocket") (cStr upgrade)).isSome then
        match rdHttpHeader headers "Sec-WebSocket-Key" 128 with
        | some key =>
            if method ≠ ascii "GET" ∨ rdHttpHeader headers "Sec-WebSocket-Version" 16 ≠ some (ascii "13") then
              (false, c.respondText 400 "Bad Request" "bad websocket handshake")
            else
              (false,
                { c with
                  out := c.out ++ upgradeResponse (rdWsAcceptKey cr key)
                  state := .Hello
                  ws := { c.ws with maxMessage := RD_MAX_CLIENT_MSG } })
        | none => (false, c.respondText 400 "Bad Request" "bad websocket handshake")
      else if method ≠ ascii "GET" ∧ method ≠ ascii "HEAD" then
        (false, c.respondText 405 "Method Not Allowed" "method not allowed")
      else
        let (threw, c) := c.serveFile webRoot readFile target
        (threw, if method = ascii "HEAD" ∧ !threw then c.dropBody else c)

def Server.handleHttp : Server σ :=
  let s' := s.modify c.uid fun c => (c.handleHttp cr s.cfg.webRoot (plat.files.readFile s.os)).2
  { s' with thrown := (c.handleHttp cr s.cfg.webRoot (plat.files.readFile s.os)).1 }

def relayRequest (cfg : ServerConfig) (control : Bool) (ticket key : Bytes) : Bytes :=
  let path :=
    if control then ascii "/host?id=" ++ cfg.relayId ++ ascii "&key=" ++ cfg.relayKey
    else ascii "/data?id=" ++ cfg.relayId ++ ascii "&key=" ++ cfg.relayKey ++ ascii "&ticket=" ++ ticket
  ascii "GET " ++ path ++ ascii " HTTP/1.1" ++ crlf ++ ascii "Host: " ++ cfg.relayHost ++ crlf ++
    ascii "Upgrade: websocket" ++ crlf ++ ascii "Connection: Upgrade" ++ crlf ++
      ascii "Sec-WebSocket-Key: " ++ key ++ crlf ++
    ascii "Sec-WebSocket-Version: 13" ++ crlf ++ ascii "User-Agent: TetherDesk-Host" ++ crlf ++ crlf

def Conn.relay (cfg : ServerConfig) (uid : Nat) (control : Bool) (ticket viewerIp : Bytes) (io : Io) : Conn :=
  let key := rdBase64 (io.random 0)
  { Conn.fresh uid with
    addr := if control then ascii "relay" else (if viewerIp = [] then ascii "relay" else viewerIp) ++
      ascii " (via relay)"
    createdUs := io.now 0
    lastRxUs := io.now 0
    lastPingUs := io.now 0
    clientWs := true
    relayCtl := control
    tcpPending := true
    state := .RelayUpgrade
    ws := rdWsReaderInit RD_MAX_CLIENT_MSG false
    wsAccept := rdWsAcceptKey cr key
    out := relayRequest cfg control ticket key }

-- The next attempt on the control connection.
def Server.backOff (now : Nat) : Server σ :=
  { s with
    relayNextUs := add64 now s.relayBackoffUs
    relayBackoffUs := min (s.relayBackoffUs * 2) (30 * kSecond) }

def Server.openRelayConn (control : Bool) (ticket viewerIp : Bytes) (io : Io) : Server σ :=
  if !io.socket then
    if control then s.backOff (io.now 0) else s
  else
    let s := s.push (Conn.relay cr s.cfg s.nextUid control ticket viewerIp io)
    if control then { s with relayCtl := some (s.nextUid - 1) } else s

def Server.maintainRelay (now : Nat) (io : Io) : Server σ :=
  if s.cfg.relayHost = [] ∨ s.relayCtl.isSome ∨ now < s.relayNextUs then s else s.openRelayConn cr true [] [] io

-- finish_relay_upgrade up to its call of handle_ws_messages. resp.compare(9, ..)
-- throws when the response is shorter than that.
def Server.finishRelayUpgrade : Server σ :=
  match (findSub headerEnd c.inn).filter (· ≠ 0) with
  | none => if c.inn.length > 16384 then s.closeConn c (ascii "bad relay response") else s
  | some k =>
      let resp := c.inn.take (k + 2)
      let s := s.modify c.uid fun c => { c with inn := rdBufConsume c.inn (k + 4) }
      let headers := resp.drop ((findSub crlf resp).getD resp.length + 2)
      if resp.take 12 ≠ ascii "HTTP/1.1 101" ∨ rdHttpHeader headers "Sec-WebSocket-Accept" 64 ≠ some c.wsAccept then
        if c.relayCtl ∧ resp.length < 9 then { s with thrown := true }
        else
          let s :=
            if c.relayCtl ∧ (resp.drop 9).take 3 = ascii "409" then
              s.log (ascii "relay: ID " ++ s.cfg.relayId ++ ascii " is in use by another computer")
            else s
          s.closeConn c (ascii "relay refused")
      else if c.relayCtl then
        ({ s with relayOnline := true, relayBackoffUs := 2 * kSecond }.modify c.uid fun c =>
          { c with state := .RelayCtl }).log
          (ascii "relay: online as " ++ s.cfg.relayId ++ ascii " (" ++ s.cfg.relayHost ++
            ascii ") - connect from anywhere with this ID")
      else s.modify c.uid fun c => { c with state := .Hello }

end Requests

section WebSocket

variable {σ : Type} (cr : Crypto) (plat : Platform σ) (s : Server σ)

-- "open TICKET VIEWER_IP" = a viewer wants in; some are its two words.
def openCommand (m : Bytes) : Option (Bytes × Bytes) :=
  if m.length > 5 ∧ m.length < 256 ∧ m.take 5 = ascii "open " then
    let cmd := m.drop 5
    let ticket := cmd.takeWhile (· ≠ 32)
    some (ticket, cmd.drop (ticket.length + 1))
  else none

def Server.relayed : Nat := s.conns.countP fun c => c.clientWs ∧ !c.relayCtl ∧ !c.dead

def Server.relayOpen (c : Conn) (m : Bytes) (io : Io) : Server σ :=
  if c.state = .RelayCtl then
    match openCommand m with
    | none => s
    | some (ticket, ip) => if s.relayed < s.cfg.maxViewers * 2 then s.openRelayConn cr false ticket ip io else s
  else s

-- The CLOSE frame of a peer.
def Conn.closing (c : Conn) (data mask : Bytes) : Conn :=
  { c.wsFrame RD_WS_CLOSE (data.take 2) mask with state := .Closing, closeAfterFlush := true }

-- One round of the loop of handle_ws_messages, and whether it goes on.
def Server.wsRound (c : Conn) (io : Io) : Server σ × Bool :=
  if c.dead ∨ c.state = .Closing then (s, false)
  else
    let (next, ws, inn) := rdWsNext c.ws c.inn
    let c := { c with ws := ws, inn := inn }
    let s := s.modify c.uid fun _ => c
    match next with
    | .more => (s, false)
    | .error => (s.closeConn c (ascii "websocket protocol error"), false)
    | .got m =>
        if m.opcode = RD_WS_BINARY then (s.handleMessage cr plat c m.data io, true)
        else if m.opcode = RD_WS_PING then
          (s.modify c.uid fun c => c.wsFrame RD_WS_PONG m.data (io.mask 0 c.uid), true)
        else if m.opcode = RD_WS_CLOSE then
          let s := if c.state = .Active then s.log (c.name ++ ascii " left") else s
          (s.modify c.uid fun c => c.closing m.data (io.mask 0 c.uid), false)
        else if m.opcode = RD_WS_TEXT then (s.relayOpen cr c m.data io, true)
        else (s, true)

end WebSocket

end TetherDesk.Host
