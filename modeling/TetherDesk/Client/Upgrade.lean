import TetherDesk.Client.Store.RoundTrip
import TetherDesk.Client.Transport
import TetherDesk.Net.Http.Upgrade
import TetherDesk.Net.Ws.Spoken

namespace TetherDesk.Client

open TetherDesk.Net TetherDesk.Secure TetherDesk.Lib

-- The request that NativeTransport::connect queues; raw is what rd_random writes.
def connectKey (raw : Fin 16 → UInt8) : Bytes := rdBase64 (List.ofFn raw)

def hostField (host : Bytes) (port : Int) : Bytes :=
  (if 58 ∈ host then ascii "[" ++ host ++ ascii "]" else host) ++
    (if port = 80 then [] else ascii ":" ++ ascii (toString port))

def connectRequest (host path : Bytes) (port : Int) (key : Bytes) : Bytes :=
  ascii "GET " ++ path ++ ascii " HTTP/1.1" ++ crlf ++ ascii "Host: " ++ hostField host port ++ crlf ++
    ascii "Upgrade: websocket" ++ crlf ++ ascii "Connection: Upgrade" ++ crlf ++
      ascii "Sec-WebSocket-Key: " ++ key ++ crlf ++
    ascii "Sec-WebSocket-Version: 13" ++ crlf ++ ascii "User-Agent: TetherDesk" ++ crlf ++ crlf

-- What finish_handshake does: nothing yet, a transport that has failed, or one that is
-- open with this input left.
inductive HandshakeEnd
  | waiting
  | failed (why : Bytes)
  | opened (inn : Bytes)
  deriving DecidableEq, Repr

def finishHandshake (expectedAccept inn : Bytes) : HandshakeEnd :=
  match findSub (crlf ++ crlf) inn with
  | none => if inn.length > 16384 then .failed (ascii "bad handshake response") else .waiting
  | some k =>
      let resp := inn.take (k + 2)
      let headers := resp.drop ((findSub crlf resp).getD resp.length + 2)
      if resp.take 12 ≠ ascii "HTTP/1.1 101" ∨ rdHttpHeader headers "Sec-WebSocket-Accept" 64 ≠
        some expectedAccept then
        .failed (ascii "not a TetherDesk host (WebSocket upgrade refused)")
      else .opened (rdBufConsume inn (k + 4))

-- The receiving side of NativeTransport; pongs are the PONG frames it has queued.
structure Receiver where
  state : TransportState
  error : Bytes
  accept : Bytes
  inn : Bytes
  ws : WsReader
  pongs : List Bytes
  deriving DecidableEq, Repr

-- After a connect() that opened a socket.
def Receiver.connecting (accept : Bytes) : Receiver :=
    ⟨.Connecting, [], accept, [], rdWsReaderInit RD_MAX_SERVER_MSG false, []⟩

def Receiver.fail (r : Receiver) (why : Bytes) : Receiver :=
    { r with error := if r.error = [] then why else r.error, state := .Closed }

def closeReason (code : Nat) : Bytes :=
  if code = 4404 then ascii "That computer isn't online right now. Ask them to open TetherDesk and turn on sharing."
  else if code = 4408 then ascii "That computer didn't answer - try again in a moment."
  else ascii "the host closed the connection"

def closeCode (data : Bytes) : Nat := if data.length ≥ 2 then be (data.take 2) else 1000

-- The loop over rd_ws_next: the messages it hands out, and the transport after it.
def Receiver.frames : Nat → Receiver → List Bytes × Receiver
  | 0, r => ([], r)
  | fuel + 1, r =>
      let (next, ws, inn) := rdWsNext r.ws r.inn
      let r := { r with ws := ws, inn := inn }
      match next with
      | .more => ([], r)
      | .error => ([], r.fail (ascii "protocol error from host"))
      | .got m =>
          if m.opcode = RD_WS_BINARY then (m.data :: (frames fuel r).1, (frames fuel r).2)
          else if m.opcode = RD_WS_PING then frames fuel { r with pongs := r.pongs ++ [m.data] }
          else if m.opcode = RD_WS_CLOSE then ([], r.fail (closeReason (closeCode m.data)))
          else frames fuel r

-- poll once the connection stands; data is what the receive loop got, closed whether it
-- ended with an error.
def Receiver.poll (r : Receiver) (data : Bytes) (closed : Bool) : List Bytes × Receiver :=
  if r.state ≠ .Connecting ∧ r.state ≠ .Open then ([], r)
  else
    let r := { r with inn := r.inn ++ data }
    let r :=
      if r.state = .Connecting then
        match finishHandshake r.accept r.inn with
        | .waiting => r
        | .failed why => r.fail why
        | .opened inn => { r with state := .Open, inn := inn }
      else r
    if r.state ≠ .Open then ([], if closed then r.fail (ascii "connection refused") else r)
    else
      let (msgs, r) := Receiver.frames (r.inn.length + 1) r
      (msgs, if r.state = .Open ∧ closed then r.fail (ascii "the host closed the connection") else r)

-- One poll after another, and everything they hand out.
def Receiver.polls : List Bytes → Receiver → List Bytes × Receiver
  | [], r => ([], r)
  | data :: rest, r =>
      ((r.poll data false).1 ++ (polls rest (r.poll data false).2).1, (polls rest (r.poll data false).2).2)

section Request

variable {host path key : Bytes} {port : Int}

theorem connectRequest_head : connectRequest host path port key =
    (askHead path (hostField host port) key (ascii "TetherDesk")).bytes := by
  rw [askHead_bytes]
  rfl

theorem hostField_inline (hhost : Inline host) : Inline (hostField host port) := by
  have hnot : ∀ b : UInt8, b ∉ host → ¬ isDigitByte b → b ≠ 45 → b ∉ ascii "[" ++ ascii "]" ++ ascii ":" →
      b ∉ hostField host port := by
    intro b hb hdigit hminus hmarks
    have hport := toString_notMem port hdigit hminus
    simp only [List.mem_append, not_or] at hmarks
    unfold hostField
    have hname : b ∉ (if 58 ∈ host then ascii "[" ++ host ++ ascii "]" else host) := by
      split_ifs
      · simp [hb, hmarks]
      · exact hb
    have hsuffix : b ∉ (if port = 80 then [] else ascii ":" ++ ascii (toString port)) := by
      split_ifs
      · exact List.not_mem_nil
      · rw [List.mem_append]
        exact not_or.mpr ⟨hmarks.2, hport⟩
    rw [List.mem_append]
    exact not_or.mpr ⟨hname, hsuffix⟩
  exact ⟨hnot 13 hhost.1 (by decide) (by decide) (by decide), hnot 10 hhost.2.1 (by decide) (by decide) (by decide),
    hnot 0 hhost.2.2 (by decide) (by decide) (by decide)⟩

theorem connectKey_graphic (raw : Fin 16 → UInt8) : ∀ b ∈ connectKey raw, Graphic b := rdBase64_graphic _

theorem connectKey_length (raw : Fin 16 → UInt8) : (connectKey raw).length = 24 := by
  rw [connectKey, rdBase64_length, List.length_ofFn]

end Request

section Reply

variable {accept : Bytes} (hgraphic : ∀ b ∈ accept, Graphic b) (hlen : accept.length < 64)
include hgraphic

-- Nothing is decided before the whole reply has come.
theorem finishHandshake_part {part : Bytes} (hpart : part <+: (upgradeHead accept).bytes)
    (hproper : part ≠ (upgradeHead accept).bytes) (hshort : part.length ≤ 16384) :
    finishHandshake accept part = .waiting := by
  unfold finishHandshake
  rw [(upgradeHead_plain (Graphic.inline hgraphic)).unfinished hpart hproper]
  exact if_neg (by omega)

include hlen

-- The acceptance of its own key opens the transport; what is behind it is input.
theorem finishHandshake_whole (behind : Bytes) :
    finishHandshake accept ((upgradeHead accept).bytes ++ behind) = .opened behind := by
  have hplain := upgradeHead_plain (Graphic.inline hgraphic)
  unfold finishHandshake
  rw [hplain.found behind]
  dsimp only
  rw [Head.take_front, hplain.eol, Option.getD_some, Head.drop_start, upgradeHead_switching,
    upgradeHead_accept hgraphic hlen,
    rdBufConsume_eq, Head.drop_bytes]
  exact if_neg fun h => h.elim (fun h => h rfl) fun h => h rfl

end Reply

section Frames

-- What a client makes of what a host says: the messages before the host closes.
def untilClose (msgs : List WsMsg) : List WsMsg := msgs.takeWhile fun m => m.opcode ≠ RD_WS_CLOSE

def binaryOf (msgs : List WsMsg) : List Bytes := (msgs.filter fun m => m.opcode = RD_WS_BINARY).map WsMsg.data

def pingsOf (msgs : List WsMsg) : List Bytes := (msgs.filter fun m => m.opcode = RD_WS_PING).map WsMsg.data

-- The messages that are still to come when x comes behind the input.
def Receiver.due (r : Receiver) (x : Bytes) : List WsMsg :=
    if r.state = .Open then untilClose (wsDecoder.spoken r.ws (r.inn ++ x)) else []

-- What has been handed out and answered is part of what was due.
structure Heard (r r' : Receiver) (msgs : List Bytes) (x : Bytes) : Prop where
  binary : binaryOf (r.due x) = msgs ++ binaryOf (r'.due x)
  pings : r.pongs ++ pingsOf (r.due x) = r'.pongs ++ pingsOf (r'.due x)

theorem Receiver.due_closed {r : Receiver} (h : r.state = .Closed) (x : Bytes) : r.due x = [] := by
  unfold Receiver.due
  rw [h]
  rfl

theorem Receiver.due_open {r : Receiver} (h : r.state = .Open) (x : Bytes) :
    r.due x = untilClose (wsDecoder.spoken r.ws (r.inn ++ x)) := if_pos h

theorem frames_heard (fuel : Nat) {r : Receiver} (hopen : r.state = .Open) (hfuel : r.inn.length < fuel)
    (x : Bytes) :
    Heard r (r.frames fuel).2 (r.frames fuel).1 x := by
  induction fuel generalizing r with
  | zero => omega
  | succ fuel ih =>
      have hdue := Receiver.due_open hopen x
      unfold Receiver.frames
      rcases hnext : rdWsNext r.ws r.inn with ⟨w, ws, inn⟩
      have hsame := wsDecoder_next r.ws r.inn hnext
      have hopen' : Receiver.state { r with ws := ws, inn := inn } = .Open := hopen
      have hdue' := Receiver.due_open hopen' x
      have hpongs : Receiver.pongs { r with ws := ws, inn := inn } = r.pongs := rfl
      have hinn : Receiver.inn { r with ws := ws, inn := inn } = inn := rfl
      have hws : Receiver.ws { r with ws := ws, inn := inn } = ws := rfl
      dsimp only
      generalize hr₁ : ({ r with ws := ws, inn := inn } : Receiver) = r₁ at hopen' hdue' hpongs hinn hws ⊢
      rw [hws, hinn] at hdue'
      cases w with
      | more =>
          rw [Decoder.spoken_of_next wsDecoder_draining (wsDecoder_incremental.more _ _ _ _ x hsame)] at hdue
          exact ⟨by rw [hdue, hdue']; rfl, by rw [hdue, hdue', hpongs]⟩
      | error =>
          obtain ⟨_, _, hfails⟩ := wsDecoder_incremental.error _ _ _ _ x hsame
          rw [Decoder.spoken_silent hfails rfl] at hdue
          have hclosed : (r₁.fail (ascii "protocol error from host")).due x = [] := Receiver.due_closed rfl x
          exact ⟨by rw [hdue, hclosed]; rfl, by rw [hdue, hclosed, ← hpongs]; rfl⟩
      | got m =>
          have hshort : inn.length < fuel := by
            have := wsDecoder_draining.shrinks _ _ _ _ _ hsame
            omega
          rw [Decoder.spoken_got wsDecoder_draining (wsDecoder_incremental.got _ _ _ _ _ x hsame)] at hdue
          by_cases hclose : m.opcode = RD_WS_CLOSE
          · have hbinary : m.opcode ≠ RD_WS_BINARY := by rw [hclose]; decide
            have hping : m.opcode ≠ RD_WS_PING := by rw [hclose]; decide
            have hclosed : (r₁.fail (closeReason (closeCode m.data))).due x = [] := Receiver.due_closed rfl x
            have hnothing : untilClose (m :: wsDecoder.spoken ws (inn ++ x)) = [] :=
              List.takeWhile_cons_of_neg (by simpa using hclose)
            dsimp only
            rw [if_neg hbinary, if_neg hping, if_pos hclose]
            exact ⟨by rw [hdue, hclosed, hnothing]; rfl, by rw [hdue, hclosed, hnothing, ← hpongs]; rfl⟩
          · have hgoes : untilClose (m :: wsDecoder.spoken ws (inn ++ x)) =
                m :: untilClose (wsDecoder.spoken ws (inn ++ x)) :=
              List.takeWhile_cons_of_pos (by simpa using hclose)
            rw [hgoes, ← hdue'] at hdue
            dsimp only
            by_cases hbinary : m.opcode = RD_WS_BINARY
            · have hping : m.opcode ≠ RD_WS_PING := by rw [hbinary]; decide
              obtain ⟨hmsgs, hpings⟩ := ih hopen' (hinn ▸ hshort)
              rw [if_pos hbinary]
              refine ⟨?_, ?_⟩
              · rw [hdue, binaryOf, List.filter_cons_of_pos (by simpa using hbinary), List.map_cons,
                  List.cons_append]
                exact congrArg (m.data :: ·) hmsgs
              · rw [hdue, pingsOf, List.filter_cons_of_neg (by simpa using hping), ← hpongs]
                exact hpings
            · have hsilent : binaryOf (m :: r₁.due x) = binaryOf (r₁.due x) :=
                congrArg (List.map WsMsg.data) (List.filter_cons_of_neg (by simpa using hbinary))
              rw [if_neg hbinary]
              by_cases hping : m.opcode = RD_WS_PING
              · have hrow : Receiver.due { r with ws := ws, inn := inn, pongs := r.pongs ++ [m.data] } x =
                    r₁.due x := by
                  rw [← hr₁]
                  rfl
                obtain ⟨hmsgs, hpings⟩ :=
                  ih (r := { r with ws := ws, inn := inn, pongs := r.pongs ++ [m.data] }) hopen hshort
                rw [hrow] at hmsgs hpings
                rw [if_pos hping]
                refine ⟨?_, ?_⟩
                · rw [hdue, hsilent]
                  exact hmsgs
                · rw [← hpings, hdue, pingsOf, List.filter_cons_of_pos (by simpa using hping), List.map_cons,
                    List.append_assoc]
                  rfl
              · obtain ⟨hmsgs, hpings⟩ := ih hopen' (hinn ▸ hshort)
                rw [if_neg hping, if_neg hclose]
                refine ⟨?_, ?_⟩
                · rw [hdue, hsilent]
                  exact hmsgs
                · rw [hdue, pingsOf, List.filter_cons_of_neg (by simpa using hping), ← hpongs]
                  exact hpings

-- The loop ends when the input says nothing more.
theorem frames_done (fuel : Nat) {r : Receiver} (hopen : r.state = .Open) (hfuel : r.inn.length < fuel) :
    (r.frames fuel).2.due [] = [] := by
  induction fuel generalizing r with
  | zero => omega
  | succ fuel ih =>
      unfold Receiver.frames
      rcases hnext : rdWsNext r.ws r.inn with ⟨w, ws, inn⟩
      have hsame := wsDecoder_next r.ws r.inn hnext
      dsimp only
      cases w with
      | more =>
          have hsilent : wsDecoder.spoken r.ws (r.inn ++ []) = [] := by
            rw [List.append_nil]
            exact Decoder.spoken_silent hsame rfl
          rw [Decoder.spoken_of_next wsDecoder_draining (wsDecoder_incremental.more _ _ _ _ [] hsame)] at hsilent
          have hopen' : Receiver.state { r with ws := ws, inn := inn } = .Open := hopen
          rw [Receiver.due_open hopen' []]
          exact (congrArg untilClose hsilent).trans rfl
      | error => exact Receiver.due_closed rfl []
      | got m =>
          have hshort : inn.length < fuel := by
            have := wsDecoder_draining.shrinks _ _ _ _ _ hsame
            omega
          dsimp only
          split
          · exact ih hopen hshort
          split
          · exact ih hopen hshort
          split
          · exact Receiver.due_closed rfl []
          · exact ih hopen hshort

theorem poll_open {r : Receiver} (hopen : r.state = .Open) (data : Bytes) :
    r.poll data false = Receiver.frames ((r.inn ++ data).length + 1) { r with inn := r.inn ++ data } := by
  have hruns : ¬ (r.state ≠ .Connecting ∧ r.state ≠ .Open) := fun h => h.2 hopen
  have hconnected : ¬ r.state = .Connecting := by rw [hopen]; decide
  have hopen' : ¬ Receiver.state { r with inn := r.inn ++ data } ≠ .Open := fun h => h hopen
  unfold Receiver.poll
  rw [if_neg hruns]
  dsimp only
  rw [if_neg hconnected, if_neg hopen']
  simp

theorem poll_closed {r : Receiver} (hclosed : r.state = .Closed) (data : Bytes) : r.poll data false = ([], r) := by
  unfold Receiver.poll
  rw [if_pos (by rw [hclosed]; decide)]

theorem frames_state (fuel : Nat) {r : Receiver} (hopen : r.state = .Open) :
    (r.frames fuel).2.state = .Open ∨ (r.frames fuel).2.state = .Closed := by
  induction fuel generalizing r with
  | zero => exact .inl hopen
  | succ fuel ih =>
      unfold Receiver.frames
      rcases rdWsNext r.ws r.inn with ⟨w, ws, inn⟩
      dsimp only
      cases w with
      | more => exact .inl hopen
      | error => exact .inr rfl
      | got m =>
          dsimp only
          split
          · exact ih hopen
          split
          · exact ih hopen
          split
          · exact .inr rfl
          · exact ih hopen

-- However the frames are cut into polls, every message is handed out once and in order.
theorem polls_heard (chunks : List Bytes) {r : Receiver} (hstate : r.state = .Open ∨ r.state = .Closed)
    (hdone : r.due [] = []) :
    (Receiver.polls chunks r).1 = binaryOf (r.due chunks.flatten) ∧
      (Receiver.polls chunks r).2.pongs = r.pongs ++ pingsOf (r.due chunks.flatten) := by
  induction chunks generalizing r with
  | nil =>
      rw [List.flatten_nil, hdone]
      exact ⟨rfl, (List.append_nil _).symm⟩
  | cons data rest ih =>
      unfold Receiver.polls
      rw [List.flatten_cons]
      dsimp only
      rcases hstate with hopen | hclosed
      · have hlong : (r.inn ++ data).length < (r.inn ++ data).length + 1 := Nat.lt_succ_self _
        have hopen' : Receiver.state { r with inn := r.inn ++ data } = .Open := hopen
        have hmore : Receiver.due { r with inn := r.inn ++ data } rest.flatten = r.due (data ++ rest.flatten) := by
          rw [Receiver.due_open hopen', Receiver.due_open hopen, ← List.append_assoc]
        obtain ⟨hbinary, hpings⟩ := frames_heard _ hopen' hlong rest.flatten
        have hstate' := frames_state ((r.inn ++ data).length + 1) hopen'
        have hdone' := frames_done _ hopen' hlong
        rw [hmore] at hbinary hpings
        rw [poll_open hopen, hbinary]
        generalize Receiver.frames ((r.inn ++ data).length + 1) { r with inn := r.inn ++ data } =
          result at hpings hstate' hdone' ⊢
        obtain ⟨hmsgs, hpongs⟩ := ih hstate' hdone'
        exact ⟨congrArg (result.1 ++ ·) hmsgs, hpongs.trans hpings.symm⟩
      · obtain ⟨hmsgs, hpongs⟩ := ih (.inr hclosed) hdone
        rw [Receiver.due_closed hclosed] at hmsgs hpongs ⊢
        rw [poll_closed hclosed]
        exact ⟨hmsgs, hpongs⟩

end Frames

section Connecting

variable {accept : Bytes}

theorem upgradeHead_short (hlen : accept.length < 64) : (upgradeHead accept).bytes.length ≤ 16384 := by
  have hfixed : (upgradeHead accept).bytes.length = (upgradeHead []).bytes.length + accept.length := by
    rw [upgradeHead_bytes, upgradeHead_bytes]
    simp only [List.length_append, List.length_nil]
    omega
  have hempty : (upgradeHead []).bytes.length < 200 := by decide
  omega

variable (hgraphic : ∀ b ∈ accept, Graphic b) (hlen : accept.length < 64)
include hgraphic hlen

-- A transport whose host has answered with its acceptance, and with stream behind it, hands
-- out the binary messages of the stream, and answers its pings, up to the host's CLOSE.
theorem receiver_hears {chunks : List Bytes} {stream : Bytes}
    (hchunks : chunks.flatten = (upgradeHead accept).bytes ++ stream) :
    (Receiver.polls chunks (Receiver.connecting accept)).1 =
      binaryOf (untilClose (wsSpoken RD_MAX_SERVER_MSG false stream)) ∧
      (Receiver.polls chunks (Receiver.connecting accept)).2.pongs =
        pingsOf (untilClose (wsSpoken RD_MAX_SERVER_MSG false stream)) := by
  have hgeneral : ∀ part : Bytes, part <+: (upgradeHead accept).bytes → part ≠ (upgradeHead accept).bytes →
      part ++ chunks.flatten = (upgradeHead accept).bytes ++ stream →
      (Receiver.polls chunks { Receiver.connecting accept with inn := part }).1 =
          binaryOf (untilClose (wsSpoken RD_MAX_SERVER_MSG false stream)) ∧
        (Receiver.polls chunks { Receiver.connecting accept with inn := part }).2.pongs =
          pingsOf (untilClose (wsSpoken RD_MAX_SERVER_MSG false stream)) := by
    clear hchunks
    induction chunks with
    | nil =>
        intro part hpart hproper h
        rw [List.flatten_nil, List.append_nil] at h
        have hlong := hpart.length_le
        rw [h, List.length_append] at hlong
        have hempty : stream = [] := List.eq_nil_of_length_eq_zero (by omega)
        rw [hempty, List.append_nil] at h
        exact absurd h hproper
    | cons data rest ih =>
        intro part hpart hproper h
        rw [List.flatten_cons, ← List.append_assoc] at h
        rcases part_or_whole h with ⟨hmore, hstill⟩ | ⟨behind, hwhole, hstream⟩
        · have hwaits : Receiver.poll { Receiver.connecting accept with inn := part } data false =
              ([], { Receiver.connecting accept with inn := part ++ data }) := by
            have hshort := hmore.length_le.trans (upgradeHead_short hlen)
            unfold Receiver.poll
            dsimp only [Receiver.connecting]
            rw [finishHandshake_part hgraphic hmore hstill hshort]
            rfl
          unfold Receiver.polls
          rw [hwaits]
          exact ih _ hmore hstill h
        · -- from here on the transport is open, and what is behind the head is its first frames
          have hopen : Receiver.state { Receiver.connecting accept with state := .Open } = .Open := rfl
          have hfirst : Receiver.poll { Receiver.connecting accept with inn := part } data false =
              Receiver.poll { Receiver.connecting accept with state := .Open } behind false := by
            rw [poll_open hopen]
            unfold Receiver.poll
            dsimp only [Receiver.connecting]
            rw [hwhole, finishHandshake_whole hgraphic hlen]
            simp
          have hsame : Receiver.polls (data :: rest) { Receiver.connecting accept with inn := part } =
              Receiver.polls (behind :: rest) { Receiver.connecting accept with state := .Open } := by
            unfold Receiver.polls
            rw [hfirst]
          have hheard := polls_heard (behind :: rest) (.inl hopen) (Receiver.due_open hopen [])
          rw [hsame]
          rw [List.flatten_cons, hstream, Receiver.due_open hopen] at hheard
          exact hheard
  exact hgeneral [] List.nil_prefix (fun h => by simp [upgradeHead_bytes, ascii] at h) hchunks

end Connecting

end TetherDesk.Client
