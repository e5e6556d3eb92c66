import TetherDesk.Host.Server.Runs
import TetherDesk.Net.Http.Upgrade
import TetherDesk.Net.Ws.RoundTrip

namespace TetherDesk.Host

open TetherDesk.Net TetherDesk.Secure

theorem upgradeResponse_head (accept : Bytes) : upgradeResponse accept = (upgradeHead accept).bytes :=
    upgradeHead_bytes.symm

theorem relayRequest_control (cfg : ServerConfig) (ticket key : Bytes) :
    relayRequest cfg true ticket key =
      (askHead (ascii "/host?id=" ++ cfg.relayId ++ ascii "&key=" ++ cfg.relayKey) cfg.relayHost key
      (ascii "TetherDesk-Host")).bytes := by
  rw [askHead_bytes]
  rfl

theorem relayRequest_data (cfg : ServerConfig) (ticket key : Bytes) :
    relayRequest cfg false ticket key =
      (askHead (ascii "/data?id=" ++ cfg.relayId ++ ascii "&key=" ++ cfg.relayKey ++
      ascii "&ticket=" ++ ticket) cfg.relayHost key (ascii "TetherDesk-Host")).bytes := by
  rw [askHead_bytes]
  rfl

-- What is read from a connection while its request is waited for.
def Conn.hear (cr : Crypto) (webRoot : Bytes) (readFile : Bytes → FileRead) (c : Conn) (data : Bytes) : Conn :=
  let c := { c with inn := c.inn ++ data }
  if c.state = .Http then (c.handleHttp cr webRoot readFile).2 else c

section Request

variable {cr : Crypto} {c : Conn} {path host key agent rest : Bytes} {webRoot : Bytes} {readFile : Bytes → FileRead}

-- A request that is not complete waits for more.
theorem handleHttp_part {h : Head} (hplain : h.Plain) (hpart : c.inn <+: h.bytes) (hproper : c.inn ≠ h.bytes)
    (hshort : c.inn.length ≤ 16384) : c.handleHttp cr webRoot readFile = (false, c) := by
  have hnone : findSub headerEnd c.inn = none := hplain.unfinished hpart hproper
  unfold Conn.handleHttp
  rw [hnone]
  dsimp only
  rw [if_neg (by omega)]

-- A WebSocket request is accepted under the key it names.
theorem handleHttp_ask (hpath : path ≠ [] ∧ ∀ b ∈ path, Graphic b) (hhost : Inline host)
    (hkey : ∀ b ∈ key, Graphic b)
    (hlen : key.length < 128) (hagent : Inline agent) (hinn : c.inn = (askHead path host key agent).bytes ++ rest) :
    c.handleHttp cr webRoot readFile =
      (false,
        { c with
          inn := rest
          out := c.out ++ upgradeResponse (rdWsAcceptKey cr key)
          state := .Hello
          ws := { c.ws with maxMessage := RD_MAX_CLIENT_MSG } }) := by
  have hplain : (askHead path host key agent).Plain :=
    askHead_plain (Graphic.inline hpath.2) hhost (Graphic.inline hkey) hagent
  have hfound : findSub headerEnd c.inn = some (headerBlock (askHead path host key agent).lines).length := by
    rw [hinn]
    exact hplain.found rest
  have hupgrade : (askHead path host key agent).field (ascii "Upgrade") = some (ascii "websocket") := rfl
  have hkeyField : (askHead path host key agent).field (ascii "Sec-WebSocket-Key") = some key := rfl
  have hversion : (askHead path host key agent).field (ascii "Sec-WebSocket-Version") = some (ascii "13") := rfl
  have hasks : (findSub (ascii "websocket")
      (cStr (((some (ascii "websocket")).getD []).map toLower))).isSome = true := by decide
  have hsame : ¬ (ascii "GET" ≠ ascii "GET" ∨ some (ascii "13") ≠ some (ascii "13")) := by simp
  unfold Conn.handleHttp
  rw [hfound]
  dsimp only
  rw [hinn, Head.take_front, hplain.eol, Option.getD_some, Head.take_start, Head.drop_start, askHead_words hpath,
    hplain.header "Upgrade" (by decide), hupgrade, hplain.header "Sec-WebSocket-Key" (by decide), hkeyField,
    hplain.header "Sec-WebSocket-Version" (by decide), hversion]
  simp only [Option.map_some, Graphic.trimmed hkey,
    List.take_of_length_le (show key.length ≤ 128 - 1 by omega), rdBufConsume_eq,
    Head.drop_bytes]
  rw [show (trimBlanks (ascii "websocket")).take (64 - 1) = ascii "websocket" by decide,
    show (trimBlanks (ascii "13")).take (16 - 1) = ascii "13" by decide, if_pos hasks, if_neg hsame]

-- The connection once the request of its key has been accepted.
def Conn.welcomed (cr : Crypto) (c : Conn) (key rest : Bytes) : Conn :=
  { c with
    inn := rest
    out := c.out ++ upgradeResponse (rdWsAcceptKey cr key)
    state := .Hello
    ws := { c.ws with maxMessage := RD_MAX_CLIENT_MSG } }

theorem hear_behind (chunks : List Bytes) (rest : Bytes) :
    chunks.foldl (Conn.hear cr webRoot readFile) (c.welcomed cr key rest) =
      c.welcomed cr key (rest ++ chunks.flatten) := by
  induction chunks generalizing rest with
  | nil => rw [List.foldl_nil, List.flatten_nil, List.append_nil]
  | cons data chunks ih =>
      have hstep : (c.welcomed cr key rest).hear cr webRoot readFile data = c.welcomed cr key (rest ++ data) := rfl
      rw [List.foldl_cons, hstep, ih, List.flatten_cons, List.append_assoc]

-- However the request is cut it is accepted once it is complete, and no byte behind it is lost.
theorem hear_request (hpath : path ≠ [] ∧ ∀ b ∈ path, Graphic b) (hhost : Inline host) (hkey : ∀ b ∈ key, Graphic b)
    (hlen : key.length < 128) (hagent : Inline agent) (hshort : (askHead path host key agent).bytes.length ≤ 16384)
    (hstate : c.state = .Http) {chunks : List Bytes} :
    ∀ part, part <+: (askHead path host key agent).bytes → part ≠ (askHead path host key agent).bytes →
      part ++ chunks.flatten = (askHead path host key agent).bytes ++ rest →
      chunks.foldl (Conn.hear cr webRoot readFile) { c with inn := part } = c.welcomed cr key rest := by
  have hplain : (askHead path host key agent).Plain :=
    askHead_plain (Graphic.inline hpath.2) hhost (Graphic.inline hkey) hagent
  induction chunks with
  | nil =>
      intro part hpart hproper h
      rw [List.flatten_nil, List.append_nil] at h
      have hlong := hpart.length_le
      rw [h, List.length_append] at hlong
      have hempty : rest = [] := List.eq_nil_of_length_eq_zero (by omega)
      rw [hempty, List.append_nil] at h
      exact absurd h hproper
  | cons data chunks ih =>
      intro part hpart hproper h
      rw [List.flatten_cons, ← List.append_assoc] at h
      have hhttp : ({ c with inn := part ++ data } : Conn).state = .Http := hstate
      have hstep : Conn.hear cr webRoot readFile { c with inn := part } data =
          (Conn.handleHttp cr { c with inn := part ++ data } webRoot readFile).2 := if_pos hhttp
      rw [List.foldl_cons, hstep]
      rcases part_or_whole h with ⟨hmore, hstill⟩ | ⟨behind, hwhole, hrest⟩
      · have hwaits : Conn.handleHttp cr { c with inn := part ++ data } webRoot readFile =
            (false, { c with inn := part ++ data }) :=
          handleHttp_part hplain hmore hstill (hmore.length_le.trans hshort)
        rw [hwaits]
        exact ih _ hmore hstill h
      · have hserved : Conn.handleHttp cr { c with inn := part ++ data } webRoot readFile =
            (false, c.welcomed cr key behind) :=
          handleHttp_ask hpath hhost hkey hlen hagent hwhole
        rw [hserved, hear_behind, hrest]

end Request

section Reply

variable {σ : Type} {s : Server σ} {c : Conn} {rest : Bytes}

-- The relay's acceptance puts a control connection online, and lets the link for a viewer begin.
theorem finishRelayUpgrade_whole (hfind : s.find c.uid = some c) (hgraphic : ∀ b ∈ c.wsAccept, Graphic b)
    (hlen : c.wsAccept.length < 64) (hinn : c.inn = (upgradeHead c.wsAccept).bytes ++ rest) :
    (s.finishRelayUpgrade c).find c.uid =
      some { c with inn := rest, state := if c.relayCtl then .RelayCtl else .Hello } ∧
      (c.relayCtl = true → (s.finishRelayUpgrade c).relayOnline = true ∧
        (s.finishRelayUpgrade c).relayBackoffUs = 2 * kSecond) := by
  have hplain := upgradeHead_plain (Graphic.inline hgraphic)
  have hfound : (findSub headerEnd c.inn).filter (· ≠ 0) =
      some (headerBlock (upgradeHead c.wsAccept).lines).length := by
    have hwhere : findSub headerEnd c.inn = some (headerBlock (upgradeHead c.wsAccept).lines).length := by
      rw [hinn]
      exact hplain.found rest
    have hne : (headerBlock (upgradeHead c.wsAccept).lines).length ≠ 0 := by
      simp [upgradeHead, Head.lines, headerBlock, ascii]
    rw [hwhere, Option.filter_some_pos (by simpa using hne)]
  have haccepted : ¬ (ascii "HTTP/1.1 101" ≠ ascii "HTTP/1.1 101" ∨ some c.wsAccept ≠ some c.wsAccept) := by simp
  have hrest : rdBufConsume c.inn ((headerBlock (upgradeHead c.wsAccept).lines).length + 4) = rest := by
    rw [hinn, rdBufConsume_eq, Head.drop_bytes]
  have hread : (s.modify c.uid fun d => { d with
      inn := rdBufConsume d.inn ((headerBlock (upgradeHead c.wsAccept).lines).length + 4) }).find c.uid =
      some { c with inn := rest } := by
    refine (find_modify ?_ hfind).trans ?_
    · exact fun _ h => h
    · rw [hrest]
  have hstate : ∀ (t : Server σ) (state : State), t.find c.uid = some { c with inn := rest } →
      (t.modify c.uid fun c => { c with state := state }).find c.uid =
        some { c with inn := rest, state := state } := by
    intro t state ht
    refine find_modify ?_ ht
    exact fun _ h => h
  unfold Server.finishRelayUpgrade
  rw [hfound]
  dsimp only
  rw [show c.inn.take ((headerBlock (upgradeHead c.wsAccept).lines).length + 2) = (upgradeHead c.wsAccept).front by
      rw [hinn, Head.take_front],
    hplain.eol, Option.getD_some, Head.drop_start, upgradeHead_switching, upgradeHead_accept hgraphic hlen,
      if_neg haccepted]
  generalize s.modify c.uid (fun d => { d with
    inn := rdBufConsume d.inn ((headerBlock (upgradeHead c.wsAccept).lines).length + 4) }) = t at hread ⊢
  have hlater : ∀ (t' : Server σ), t'.conns = t.conns → t'.find c.uid = some { c with inn := rest } := by
    intro t' hconns
    rw [← hread, Server.find, Server.find, hconns]
  by_cases hctl : c.relayCtl = true
  · rw [if_pos hctl, if_pos hctl]
    exact ⟨hstate _ _ (hlater _ rfl), fun _ => ⟨rfl, rfl⟩⟩
  · rw [if_neg hctl, if_neg hctl]
    exact ⟨hstate _ _ hread, fun h => absurd h hctl⟩

end Reply

end TetherDesk.Host
