import TetherDesk.Client.Upgrade
import TetherDesk.Host.Server.RelayLink
import TetherDesk.Host.Upgrade
import TetherDesk.Relay.Rendezvous
import TetherDesk.Secure.Lengths

namespace TetherDesk

open TetherDesk.Net TetherDesk.Secure TetherDesk.Lib.Transition

section Reference

theorem roundSha1_length (i w : Nat) {st : List Nat} (h : st.length = 5) : (roundSha1 i w st).length = 5 := by
  obtain ⟨a, b, c, d, e, rfl⟩ : ∃ a b c d e, st = [a, b, c, d, e] := by
    rcases st with _ | ⟨a, _ | ⟨b, _ | ⟨c, _ | ⟨d, _ | ⟨e, _ | ⟨f, st⟩⟩⟩⟩⟩⟩ <;> simp at h
    exact ⟨a, b, c, d, e, rfl⟩
  rfl

theorem roundsSha1_length (is ws : List Nat) {st : List Nat} (h : st.length = 5) :
    (roundsSha1 is ws st).length = 5 := by
  induction is generalizing ws st with
  | nil => exact h
  | cons i is ih =>
      rw [roundsSha1, withList_eq, withValue_eq]
      exact ih _ (roundSha1_length i _ h)

theorem blocksSha1_length (blocks : List Bytes) {st : List Nat} (h : st.length = 5) :
    (blocksSha1 st blocks).length = 5 := by
  induction blocks generalizing st with
  | nil => exact h
  | cons p blocks ih =>
      rw [blocksSha1, withList_eq, withList_eq]
      refine ih ?_
      rw [List.length_zipWith, roundsSha1_length _ _ h, h]
      rfl

theorem reference_sha1_length (m : Bytes) : (reference.rdSha1 m).length = 20 := by
  show (sha1 m).length = 20
  unfold sha1
  rw [List.length_flatMap]
  simp [putBe, blocksSha1_length]

end Reference

section Direct

variable {cr : Crypto}

-- A viewer and a host on one connection agree on its upgrade, however either direction is
-- cut: the host takes up the frames behind the request, and the transport hands out what
-- the host says behind its acceptance.
theorem upgrade_agreement (hsha : ∀ m, (cr.rdSha1 m).length = 20) {host path : Bytes} {port : Int}
    (raw : Fin 16 → UInt8)
    (hhost : Inline host) (hpath : path ≠ [] ∧ ∀ b ∈ path, Graphic b)
    (hshort : (Client.connectRequest host path port (Client.connectKey raw)).length ≤ 16384)
    (c : Host.Conn) (hfresh : c.state = .Http ∧ c.inn = [] ∧ c.out = []) (webRoot : Bytes)
    (readFile : Bytes → FileRead)
    {toHost toViewer : List Bytes} {frames stream : Bytes}
    (hrequest : toHost.flatten = Client.connectRequest host path port (Client.connectKey raw) ++ frames)
    (hreply : toViewer.flatten = (toHost.foldl (Host.Conn.hear cr webRoot readFile) c).out ++ stream) :
    (toHost.foldl (Host.Conn.hear cr webRoot readFile) c).state = .Hello ∧
      (toHost.foldl (Host.Conn.hear cr webRoot readFile) c).inn = frames ∧
      (Client.Receiver.polls toViewer (Client.Receiver.connecting (rdWsAcceptKey cr (Client.connectKey raw)))).1 =
        Client.binaryOf (Client.untilClose (wsSpoken RD_MAX_SERVER_MSG false stream)) ∧
      (Client.Receiver.polls toViewer
        (Client.Receiver.connecting (rdWsAcceptKey cr (Client.connectKey raw)))).2.pongs =
        Client.pingsOf (Client.untilClose (wsSpoken RD_MAX_SERVER_MSG false stream)) := by
  obtain ⟨hstate, hinn, hout⟩ := hfresh
  rw [Client.connectRequest_head] at hrequest hshort
  have hstart : { c with inn := [] } = c := by rw [← hinn]
  have hlen : (Client.connectKey raw).length < 128 := by
    rw [Client.connectKey_length]
    decide
  have hne : [] ≠ (askHead path (Client.hostField host port) (Client.connectKey raw)
      (ascii "TetherDesk")).bytes := by
    rw [askHead_bytes]
    simp [ascii]
  have hserved : toHost.foldl (Host.Conn.hear cr webRoot readFile) { c with inn := [] } =
      c.welcomed cr (Client.connectKey raw) frames :=
    Host.hear_request hpath (Client.hostField_inline hhost) (Client.connectKey_graphic raw) hlen (by decide)
      hshort hstate []
      List.nil_prefix hne hrequest
  have haccept : (rdWsAcceptKey cr (Client.connectKey raw)).length < 64 := by
    rw [rdWsAcceptKey_length hsha]
    decide
  rw [hstart] at hserved
  rw [hserved] at hreply ⊢
  have hout' : (c.welcomed cr (Client.connectKey raw) frames).out =
      (upgradeHead (rdWsAcceptKey cr (Client.connectKey raw))).bytes := by
    unfold Host.Conn.welcomed
    dsimp only
    rw [hout, List.nil_append, Host.upgradeResponse_head]
  rw [hout'] at hreply
  exact ⟨rfl, rfl, Client.receiver_hears (rdBase64_graphic _) haccept hreply⟩

-- A viewer whose request comes in two reads, with a message behind it, and whose host
-- says something, pings it and says something more.
def localReads : List Bytes :=
  let request := Client.connectRequest (ascii "localhost") (ascii "/ws") 8443 (Client.connectKey fun _ => 0)
  [request.take 40, request.drop 40 ++ Host.clientFrame RD_WS_BINARY (ascii "hi")]

def localStream : Bytes :=
  rdWsWriteFrame RD_WS_BINARY (ascii "one") none ++ rdWsWriteFrame RD_WS_PING (ascii "td") none ++
    rdWsWriteFrame RD_WS_BINARY (ascii "two") none

def localReplies (reply : Bytes) : List Bytes := [reply.take 10, reply.drop 10 ++ localStream]

theorem localReplies_flatten (reply : Bytes) : (localReplies reply).flatten = reply ++ localStream := by
  rw [localReplies, List.flatten_cons, List.flatten_singleton, ← List.append_assoc, List.take_append_drop]

theorem upgrade_agreement_local :
    ∃ host, host = localReads.foldl (Host.Conn.hear reference [] fun _ => .absent) (Host.Conn.fresh 0) ∧
      host.state = .Hello ∧ host.inn = Host.clientFrame RD_WS_BINARY (ascii "hi") ∧
      (Client.Receiver.polls (localReplies host.out)
        (Client.Receiver.connecting (rdWsAcceptKey reference (Client.connectKey fun _ => 0)))).1 =
          [ascii "one", ascii "two"] ∧
      (Client.Receiver.polls (localReplies host.out)
        (Client.Receiver.connecting (rdWsAcceptKey reference (Client.connectKey fun _ => 0)))).2.pongs =
          [ascii "td"] := by
  have hpath : ascii "/ws" ≠ [] ∧ ∀ b ∈ ascii "/ws", Graphic b := ⟨by decide, Graphic.of_all (by decide)⟩
  have hshort : (Client.connectRequest (ascii "localhost") (ascii "/ws") 8443 (Client.connectKey fun _ =>
      0)).length ≤ 16384 := by
    decide +kernel
  have hreads : localReads.flatten = Client.connectRequest (ascii "localhost") (ascii "/ws") 8443
      (Client.connectKey fun _ => 0) ++
      Host.clientFrame RD_WS_BINARY (ascii "hi") := by
    unfold localReads
    dsimp only
    rw [List.flatten_cons, List.flatten_singleton, ← List.append_assoc, List.take_append_drop]
  have hspoken : Client.binaryOf (Client.untilClose (wsSpoken RD_MAX_SERVER_MSG false localStream)) =
      [ascii "one", ascii "two"] ∧
      Client.pingsOf (Client.untilClose (wsSpoken RD_MAX_SERVER_MSG false localStream)) = [ascii "td"] := by
    decide +kernel
  obtain ⟨hstate, hinn, hheard, hpongs⟩ :=
    upgrade_agreement reference_sha1_length (fun _ => 0) (by decide) hpath hshort
    (Host.Conn.fresh 0) ⟨rfl, rfl, rfl⟩ [] (fun _ => .absent) hreads (localReplies_flatten _)
  exact ⟨_, rfl, hstate, hinn, hheard.trans hspoken.1, hpongs.trans hspoken.2⟩

end Direct

section Relayed

variable {cr : Crypto} {past : List (Relay.Globals × Relay.Event)} {s : Relay.Globals} {c : Relay.Conn}
  {data : Bytes}
  {rio : Relay.Io} {cfg : Host.ServerConfig} {hio : Host.Io}

theorem hostPath (id key : Bytes) : ascii "/host?id=" ++ id ++ ascii "&key=" ++ key =
    ascii "/host" ++ 63 :: Relay.query [(ascii "id", id), (ascii "key", key)] := by
  simp [Relay.query, Relay.param, List.intercalate, ascii]

theorem dataPath (id key ticket : Bytes) : ascii "/data?id=" ++ id ++ ascii "&key=" ++ key ++
    ascii "&ticket=" ++ ticket =
    ascii "/data" ++ 63 :: Relay.query [(ascii "id", id), (ascii "key", key), (ascii "ticket", ticket)] := by
  simp [Relay.query, Relay.param, List.intercalate, ascii]

theorem acceptUpgrade_out (c : Relay.Conn) (key : Bytes) :
    (Relay.Conn.acceptUpgrade cr c key).out = c.out ++ (upgradeHead (rdWsAcceptKey cr key)).bytes := by
  rw [upgradeHead_bytes]
  unfold Relay.Conn.acceptUpgrade
  simp only [List.append_assoc]

-- A host registers, a viewer asks for it, and the host redeems its ticket.
def townConfig : Host.ServerConfig :=
  { Host.deskConfig false with
    relayHost := ascii "relay.test"
    relayId := ascii "123456789"
    relayKey := ascii "0123456789abcdef0123456789abcdef" }

def meeting (events : List Relay.Event) : Relay.Globals := events.foldl (fun s e => e.apply reference s)
    (Relay.Globals.started [])

theorem meeting_run (events : List Relay.Event) (h : ∀ p ∈ Relay.historyOf events, p.1.thrown = false) :
    Run (Relay.relayRuns reference) (Relay.historyOf events) (meeting events) := Relay.events_run events h

-- The host dials the relay, and then this happens.
def dialIo : Host.Io := { Host.deskIo with socket := true }

def townHost (events : List (Host.ServerEvent Host.Desk)) : Option (Host.Server Host.Desk) :=
  (Host.Server.started Host.deskPlatform townConfig 0 ⟨none, []⟩).bind fun s =>
    Host.deskRun s ([.maintainRelay 0 dialIo, .tcpReady 0 true none []] ++ events)

theorem townHost_run {events : List (Host.ServerEvent Host.Desk)} {P : Host.Server Host.Desk → Prop}
    [DecidablePred P]
    (h : (townHost events).any (fun h => P h) = true) :
    ∃ past h, Run (Host.serverRuns reference Host.deskPlatform) past h ∧ P h := by
  obtain ⟨t, ht, hP⟩ := (Option.any_eq_true _ _).mp h
  obtain ⟨s, hs, ht⟩ := Option.bind_eq_some_iff.mp ht
  obtain ⟨past, hrun, -⟩ := Host.deskRun_run (.start ⟨townConfig, 0, ⟨none, []⟩, hs⟩) ht
  exact ⟨past, t, hrun, of_decide_eq_true hP⟩

-- The relay's acceptance of the host's requests, which all name the same key.
def townReply : Bytes := Host.upgradeResponse (ascii "HxQGuR/8NNkEk+gAR7AGRRQUR5I=")

def newcomer (uid : Nat) (ip : String) : Relay.Conn := { Relay.Conn.fresh uid with ip := ascii ip }

-- A host that asks for its id, free or its own, is registered, and goes online with the
-- relay's answer.
theorem relay_registration (hsha : ∀ m, (cr.rdSha1 m).length = 20) (run : Run (Relay.relayRuns cr) past s)
    (hc : s.find c.uid = some c) (hkind : c.kind = .Http) (halive : c.dead = false)
    (hid : Relay.validId cfg.relayId = true)
    (hkey : Relay.validHex cfg.relayKey 32 = true) (hhost : Inline cfg.relayHost)
    (hfree : ∀ e, s.hosts cfg.relayId = some e → e.ctl ≠ none → e.key = cfg.relayKey)
    (hrandom : (hio.random 0).length = 16)
    (uid : Nat) (hasked : c.inn ++ data = (Host.Conn.relay cr cfg uid true [] [] hio).out) :
    (Relay.Event.apply cr s (.read c.uid data false rio)).hosts =
        Function.update s.hosts cfg.relayId (some ⟨cfg.relayKey, some c.uid⟩) ∧
      ∃ d reply, (Relay.Event.apply cr s (.read c.uid data false rio)).find c.uid = some d ∧ d.kind = .HostCtl ∧
        d.id = cfg.relayId ∧ d.dead = false ∧ d.out = c.out ++ reply ∧
        ∀ {σ : Type} (h : Host.Server σ) (k : Host.Conn) (rest : Bytes), h.find k.uid = some k → k.relayCtl = true →
          k.wsAccept = (Host.Conn.relay cr cfg uid true [] [] hio).wsAccept → k.inn = reply ++ rest →
          (h.finishRelayUpgrade k).relayOnline = true ∧ (h.finishRelayUpgrade k).relayBackoffUs = 2 * Host.kSecond ∧
            (h.finishRelayUpgrade k).find k.uid = some { k with inn := rest, state := .RelayCtl } := by
  have hsane := Relay.relay_sane run
  have hlen : (rdBase64 (hio.random 0)).length < 128 := by
    rw [rdBase64_length, hrandom]
    decide
  have hout : (Host.Conn.relay cr cfg uid true [] [] hio).out = (askHead (ascii "/host" ++ 63 ::
      Relay.query [(ascii "id", cfg.relayId), (ascii "key", cfg.relayKey)]) cfg.relayHost (rdBase64 (hio.random 0))
      (ascii "TetherDesk-Host")).bytes := by
    rw [← hostPath]
    exact Host.relayRequest_control cfg [] (rdBase64 (hio.random 0))
  have hreg : Relay.Registered cr s (Relay.Event.apply cr s (.read c.uid data false rio)) (c.asked data rio)
      cfg.relayId cfg.relayKey
      (rdBase64 (hio.random 0)) :=
    Relay.read_host hhost (rdBase64_graphic _) hlen (by decide) hsane hc hkind halive hid hkey hfree
      (hasked.trans hout)
  refine ⟨hreg.hosts, _, (upgradeHead (rdWsAcceptKey cr (rdBase64 (hio.random 0)))).bytes, hreg.row, rfl,
    rfl, halive,
    acceptUpgrade_out _ _, ?_⟩
  intro σ h k rest hk hctl haccept hinn
  have hshort : k.wsAccept.length < 64 := by
    rw [haccept]
    exact (rdWsAcceptKey_length hsha _).trans_lt (by decide)
  have hgraphic : ∀ b ∈ k.wsAccept, Graphic b := by
    rw [haccept]
    exact rdBase64_graphic _
  have hreply : k.inn = (upgradeHead k.wsAccept).bytes ++ rest := by
    rw [haccept]
    exact hinn
  obtain ⟨hrow, honline⟩ := Host.finishRelayUpgrade_whole hk hgraphic hshort hreply
  rw [if_pos hctl] at hrow
  exact ⟨(honline hctl).1, (honline hctl).2, hrow⟩

theorem relay_registration_town :
    (Relay.Event.apply reference (meeting [.accept (ascii "192.0.2.1") 0])
      (.read 0 (Host.Conn.relay reference townConfig 0 true [] [] dialIo).out false Relay.quietIo)).hosts =
        Function.update (meeting [.accept (ascii "192.0.2.1") 0]).hosts townConfig.relayId
          (some ⟨townConfig.relayKey, some 0⟩) ∧
      ∃ past h k, Run (Host.serverRuns reference Host.deskPlatform) past h ∧ h.find k.uid = some k ∧
        k.state = .RelayUpgrade ∧
        k.inn = townReply ∧ h.relayOnline = false ∧ (h.finishRelayUpgrade k).relayOnline = true := by
  have run := meeting_run [.accept (ascii "192.0.2.1") 0] (by decide)
  have hc : (meeting [.accept (ascii "192.0.2.1") 0]).find (newcomer 0 "192.0.2.1").uid =
      some (newcomer 0 "192.0.2.1") := by
    decide +kernel
  have hfree : ∀ e, (meeting [.accept (ascii "192.0.2.1") 0]).hosts townConfig.relayId = some e → e.ctl ≠ none →
      e.key = townConfig.relayKey := fun e he => absurd he.symm (Option.some_ne_none e)
  have hrandom : (dialIo.random 0).length = 16 := rfl
  obtain ⟨hhosts, d, reply, hd, -, -, -, hout, hhost⟩ :=
    relay_registration reference_sha1_length run hc rfl rfl (by decide)
    (by decide) (by decide) hfree hrandom 0 (List.nil_append _)
  refine ⟨hhosts, ?_⟩
  have hsaid : ((Relay.Event.apply reference (meeting [.accept (ascii "192.0.2.1") 0])
      (.read 0 (Host.Conn.relay reference townConfig 0 true [] [] dialIo).out false Relay.quietIo)).find
        0).map Relay.Conn.out =
        some townReply := by decide +kernel
  have hreply : reply = townReply :=
    hout.symm.trans (Option.some.inj ((congrArg (Option.map Relay.Conn.out) hd).symm.trans hsaid))
  have hanswered : (townHost [.received 0 townReply 0]).any (fun h => h.relayOnline = false ∧
      h.conns.map (fun k => (k.uid, k.relayCtl, k.state)) = [(0, true, .RelayUpgrade)] ∧
      h.conns.map (fun k => (k.wsAccept, k.inn)) =
        [((Host.Conn.relay reference townConfig 0 true [] [] dialIo).wsAccept, townReply)]) =
          true := by decide +kernel
  obtain ⟨hpast, h, hrun, hoffline, hrows, hinns⟩ := townHost_run hanswered
  obtain ⟨k, hconns, hrow⟩ := List.map_eq_singleton_iff.mp hrows
  simp only [hconns, List.map_cons, List.map_nil, List.cons.injEq, Prod.mk.injEq, and_true] at hinns hrow
  obtain ⟨huid, hctl, hstate⟩ := hrow
  obtain ⟨haccept, hinn⟩ := hinns
  have hk : h.find k.uid = some k := by simp [Host.Server.find, hconns]
  have hwhole : k.inn = reply ++ [] := by
    rw [hinn, List.append_nil, hreply]
  exact ⟨hpast, h, k, hrun, hk, hstate, hinn, hoffline, (hhost h k [] hk hctl haccept hwhole).1⟩

-- The relay's word to a host that a viewer waits opens the host's link for it.
theorem openCommand_opens {ticket ip : Bytes} (hdigits : ∀ b ∈ ticket, Relay.isHexDigit b = true)
    (hlen : ticket.length = 32)
    (hip : ip.length < 64) : Host.openCommand (ascii "open " ++ ticket ++ ascii " " ++ ip) = some (ticket, ip) := by
  have hnot : ∀ b ∈ ticket, decide (b ≠ 32) = true := fun b hb =>
    decide_eq_true fun heq => absurd (Relay.isHexDigit_graphic (hdigits b hb)).1.1 (by rw [heq]; decide)
  have hword : (ascii "open " ++ ticket ++ ascii " " ++ ip).drop 5 = ticket ++ 32 :: ip := by
    simp [ascii]
  have htake : (ticket ++ 32 :: ip).takeWhile (· ≠ 32) = ticket := by
    rw [List.takeWhile_append_of_pos hnot, List.takeWhile_cons_of_neg (by simp), List.append_nil]
  have hrest : (ticket ++ 32 :: ip).drop (ticket.length + 1) = ip := by
    rw [← List.drop_drop, List.drop_left]
    rfl
  have hgood : (ascii "open " ++ ticket ++ ascii " " ++ ip).length > 5 ∧
      (ascii "open " ++ ticket ++ ascii " " ++ ip).length < 256 ∧
      (ascii "open " ++ ticket ++ ascii " " ++ ip).take 5 = ascii "open " := by
    refine ⟨by simp [ascii], ?_, by simp [ascii]⟩
    simp [ascii]
    omega
  unfold Host.openCommand
  rw [if_pos hgood, hword]
  dsimp only
  rw [htake, hrest]

theorem ticket_length (rio : Relay.Io) : rio.ticket.length = 32 := by
  simp [Relay.Io.ticket, Relay.randomHex, hexByte]

-- What the relay says to a host for which a viewer waits.
def openWord (ticket ip : Bytes) : Bytes := ascii "open " ++ ticket ++ ascii " " ++ ip

-- The host reads the relay's word on its control connection.
theorem wsRound_opens {σ : Type} {plat : Host.Platform σ} {h : Host.Server σ}
    {hpast : List (Host.Server σ × Host.ServerEvent σ)}
    (hrun : Run (Host.serverRuns cr plat) hpast h) {k : Host.Conn} (hk : h.find k.uid = some k)
    (halive : k.dead = false)
    (hctl : k.relayCtl = true) (hstate : k.state = .RelayCtl) (hidle : k.ws.assemblyOpcode = none)
    {ticket ip rest : Bytes}
    (hdigits : ∀ b ∈ ticket, Relay.isHexDigit b = true) (hlen : ticket.length = 32) (hip : ip.length < 64)
    (hinn : k.inn = rdWsWriteFrame RD_WS_TEXT (openWord ticket ip) none ++ rest) {io : Host.Io}
    (hroom : h.relayed < h.cfg.maxViewers * 2) (hsocket : io.socket = true) :
    (h.wsRound cr plat k io).1.conns =
      (h.conns.map fun d =>
        if d.uid = k.uid then { k with ws := { k.ws with assembly := openWord ticket ip }, inn := rest } else d) ++
      [Host.Conn.relay cr h.cfg h.nextUid false ticket ip io] := by
  have hmem : k ∈ h.conns := List.mem_of_find?_eq_some hk
  have hsmall : (openWord ticket ip).length ≤ RD_MAX_CLIENT_MSG := by
    simp [openWord, ascii, RD_MAX_CLIENT_MSG]
    omega
  have hnext := rdWsNext_written RD_MAX_CLIENT_MSG false (by decide) RD_WS_TEXT (openWord ticket ip) rest none
    (.inr rfl) ⟨rfl, by simp⟩ hsmall k.ws (Host.control_reader cr plat hrun k hmem hctl) hidle
  have hgoes : ¬ (k.dead = true ∨ k.state = .Closing) := by simp [halive, hstate]
  -- the links that count stay the same
  have hrelayed : Host.Server.relayed (h.modify k.uid fun _ =>
      { k with ws := { k.ws with assembly := openWord ticket ip }, inn := rest }) = h.relayed := by
    have htidy := Host.tidy_run cr plat hrun
    unfold Host.Server.relayed Host.Server.modify
    dsimp only
    rw [List.countP_map]
    refine List.countP_congr fun d hd => ?_
    rw [Function.comp_apply]
    by_cases hu : d.uid = k.uid
    · obtain rfl := Lib.Table.row_unique Host.Conn.uid htidy.distinct hd hmem hu
      rw [if_pos rfl]
    · rw [if_neg hu]
  have hword : Host.openCommand (openWord ticket ip) = some (ticket, ip) := openCommand_opens hdigits hlen hip
  unfold Host.Server.wsRound
  rw [if_neg hgoes, hinn, hnext]
  dsimp only
  have hnotBinary : RD_WS_TEXT ≠ RD_WS_BINARY := by decide
  have hnotPing : RD_WS_TEXT ≠ RD_WS_PING := by decide
  have hnotClose : RD_WS_TEXT ≠ RD_WS_CLOSE := by decide
  rw [if_neg hnotBinary, if_neg hnotPing, if_neg hnotClose, if_pos rfl]
  unfold Host.Server.relayOpen
  dsimp only
  rw [if_pos hstate, hword]
  dsimp only
  rw [hrelayed]
  have hbooks : (h.modify k.uid fun _ =>
      { k with ws := { k.ws with assembly := openWord ticket ip }, inn := rest }).toBooks = h.toBooks := rfl
  have hconns : (h.modify k.uid fun _ =>
      { k with ws := { k.ws with assembly := openWord ticket ip }, inn := rest }).conns =
      h.conns.map fun d =>
        if d.uid = k.uid then { k with
          ws := { k.ws with assembly := openWord ticket ip }, inn := rest } else d := rfl
  generalize h.modify k.uid (fun _ =>
    { k with ws := { k.ws with assembly := openWord ticket ip }, inn := rest }) = t
    at hbooks hconns ⊢
  have hopens : ¬ (!io.socket) = true := by simp [hsocket]
  rw [hbooks, if_pos hroom]
  unfold Host.Server.openRelayConn
  rw [if_neg hopens, if_neg Bool.false_ne_true, hbooks, ← hconns]
  rfl

-- A viewer that asks for a host that is online waits under a ticket of its own, its
-- transport is open, and the host answers the relay's word with one link for that
-- ticket, all its other connections being as they were.
theorem relay_announcement (hsha : ∀ m, (cr.rdSha1 m).length = 20) (run : Run (Relay.relayRuns cr) past s)
    (hc : s.find c.uid = some c) (hkind : c.kind = .Http) (halive : c.dead = false) {id host : Bytes} {port : Int}
    {raw : Fin 16 → UInt8} (hid : Relay.validId id = true) (hhost : Inline host) (hip : c.ip.length < 64)
    {e : Relay.HostEntry}
    {d : Relay.Conn} (he : s.hosts id = some e) (hctl : e.ctl = some d.uid) (hd : s.find d.uid = some d)
    (hasked : c.inn ++ data = Client.connectRequest host (ascii "/v/" ++ id) port (Client.connectKey raw)) :
    (Relay.Event.apply cr s (.read c.uid data false rio)).tickets =
      Function.update s.tickets rio.ticket (some c.uid) ∧
      (∃ v reply, (Relay.Event.apply cr s (.read c.uid data false rio)).find c.uid = some v ∧
        v.kind = .Viewer ∧ v.id = id ∧
        v.ticket = rio.ticket ∧ v.dead = false ∧ v.out = c.out ++ reply ∧
        ∀ (chunks : List Bytes) (stream : Bytes), chunks.flatten = reply ++ stream →
          (Client.Receiver.polls chunks (Client.Receiver.connecting (rdWsAcceptKey cr (Client.connectKey raw)))).1 =
            Client.binaryOf (Client.untilClose (wsSpoken RD_MAX_SERVER_MSG false stream))) ∧
      (Relay.Event.apply cr s (.read c.uid data false rio)).find d.uid =
        some { d with out := d.out ++ rdWsWriteFrame RD_WS_TEXT (openWord rio.ticket c.ip) none } ∧
      ∀ {σ : Type} (plat : Host.Platform σ) (hpast : List (Host.Server σ × Host.ServerEvent σ)) (h : Host.Server σ)
        (k : Host.Conn) (rest : Bytes) (io : Host.Io), Run (Host.serverRuns cr plat) hpast h →
          h.find k.uid = some k →
        k.dead = false → k.relayCtl = true → k.state = .RelayCtl → k.ws.assemblyOpcode = none →
        k.inn = rdWsWriteFrame RD_WS_TEXT (openWord rio.ticket c.ip) none ++ rest →
        h.relayed < h.cfg.maxViewers * 2 → io.socket = true →
        (h.wsRound cr plat k io).1.conns =
          (h.conns.map fun d =>
            if d.uid = k.uid then { k with
              ws := { k.ws with assembly := openWord rio.ticket c.ip }, inn := rest } else d) ++
          [Host.Conn.relay cr h.cfg h.nextUid false rio.ticket c.ip io] := by
  have hsane := Relay.relay_sane run
  have hlen : (Client.connectKey raw).length < 128 := by
    rw [Client.connectKey_length]
    decide
  rw [Client.connectRequest_head] at hasked
  have hann : Relay.Announced cr s (Relay.Event.apply cr s (.read c.uid data false rio)) (c.asked data rio) d id
      (Client.connectKey raw) rio.ticket :=
    Relay.read_viewer (Client.hostField_inline hhost) (Client.connectKey_graphic raw) hlen (by decide) hsane
      hc hkind halive hid he hctl
      hd hasked
  have hcontrol : (Relay.Event.apply cr s (.read c.uid data false rio)).find d.uid = some { d with
      out := d.out ++ rdWsWriteFrame RD_WS_TEXT (openWord rio.ticket c.ip) none } := hann.control
  have htickets : (Relay.Event.apply cr s (.read c.uid data false rio)).tickets =
      Function.update s.tickets rio.ticket (some c.uid) :=
    hann.tickets
  have hrow := hann.row
  generalize Client.connectKey raw = key at hrow ⊢
  generalize Relay.Event.apply cr s (.read c.uid data false rio) = t at hcontrol htickets hrow ⊢
  have hout : (Relay.Conn.acceptUpgrade cr { c.asked data rio with kind := .Viewer, id := id } key).out =
      c.out ++ (upgradeHead (rdWsAcceptKey cr key)).bytes := acceptUpgrade_out _ _
  refine ⟨htickets, ⟨_, (upgradeHead (rdWsAcceptKey cr key)).bytes, hrow, rfl, rfl, rfl, halive, hout, ?_⟩,
    hcontrol, ?_⟩
  · intro chunks stream hchunks
    have haccept : (rdWsAcceptKey cr key).length < 64 := (rdWsAcceptKey_length hsha _).trans_lt (by decide)
    exact (Client.receiver_hears (rdBase64_graphic _) haccept hchunks).1
  · intro σ plat hpast h k rest io hrun hk hkalive hkctl hstate hidle hinn hroom hsocket
    exact wsRound_opens hrun hk hkalive hkctl hstate hidle (Relay.ticket_digits rio) (ticket_length rio) hip
      hinn hroom hsocket

def townEvents : List Relay.Event :=
  [.accept (ascii "192.0.2.1") 0,
    .read 0 (Host.Conn.relay reference townConfig 0 true [] [] dialIo).out false Relay.quietIo,
    .accept (ascii "192.0.2.2") 0]

def townRequest : Bytes := Client.connectRequest (ascii "relay.test")
    (ascii "/v/123456789") 443 (Client.connectKey fun _ => 0)

def townWord : Bytes := openWord Relay.quietIo.ticket (ascii "192.0.2.2")

-- The host with the relay's word for it.
def townCalled : List (Host.ServerEvent Host.Desk) :=
  [.received 0 townReply 0, .relayUpgrade 0, .received 0 (rdWsWriteFrame RD_WS_TEXT townWord none) 0]

theorem relay_announcement_town :
    (Relay.Event.apply reference (meeting townEvents) (.read 1 townRequest false Relay.quietIo)).tickets =
        Function.update (meeting townEvents).tickets Relay.quietIo.ticket (some 1) ∧
      ∃ past h k, Run (Host.serverRuns reference Host.deskPlatform) past h ∧ h.conns = [k] ∧
        (h.wsRound reference Host.deskPlatform k dialIo).1.conns =
          [{ k with ws := { k.ws with assembly := townWord }, inn := [] },
            Host.Conn.relay reference h.cfg h.nextUid false Relay.quietIo.ticket (ascii "192.0.2.2") dialIo] := by
  have run := meeting_run townEvents (by decide +kernel)
  obtain ⟨hc, hctl, he⟩ : (meeting townEvents).find (newcomer 1 "192.0.2.2").uid = some (newcomer 1 "192.0.2.2") ∧
      ((meeting townEvents).find 0).isSome ∧
      (meeting townEvents).hosts (ascii "123456789") = some ⟨townConfig.relayKey, some 0⟩ := by
    decide +kernel
  obtain ⟨d, hd⟩ := Option.isSome_iff_exists.mp hctl
  have huid : d.uid = 0 := Relay.find_uid hd
  rw [← huid] at hd he
  obtain ⟨htickets, -, -, hopens⟩ :=
    @relay_announcement reference _ _ (newcomer 1 "192.0.2.2") townRequest Relay.quietIo
    reference_sha1_length run hc rfl rfl (ascii "123456789") (ascii "relay.test") 443 (fun _ => 0)
      (by decide) (by decide)
    (by decide) _ d he rfl hd (List.nil_append _)
  refine ⟨htickets, ?_⟩
  have hcalled : (townHost townCalled).any (fun h => h.relayed = 0 ∧ h.cfg.maxViewers = 4 ∧
      h.conns.map (fun k => (k.uid, k.relayCtl, k.state)) = [(0, true, .RelayCtl)] ∧
      h.conns.map (fun k => (k.dead, k.ws.assemblyOpcode, k.inn)) =
        [(false, none, rdWsWriteFrame RD_WS_TEXT townWord none)]) = true := by decide +kernel
  obtain ⟨hpast, h, hrun, hrelayed, hviewers, hrows, hinns⟩ := townHost_run hcalled
  obtain ⟨k, hconns, hrow⟩ := List.map_eq_singleton_iff.mp hrows
  simp only [hconns, List.map_cons, List.map_nil, List.cons.injEq, Prod.mk.injEq, and_true] at hinns hrow
  obtain ⟨-, hkctl, hstate⟩ := hrow
  obtain ⟨halive, hidle, hinn⟩ := hinns
  have hk : h.find k.uid = some k := by simp [Host.Server.find, hconns]
  have hroom : h.relayed < h.cfg.maxViewers * 2 := by omega
  have hround := hopens Host.deskPlatform hpast h k [] dialIo hrun hk halive hkctl hstate hidle
    (hinn.trans (List.append_nil _).symm) hroom rfl
  rw [hconns, List.map_singleton, if_pos rfl] at hround
  exact ⟨hpast, h, k, hrun, hconns, hround⟩

-- What waits for a host is what the viewer has said so far, but for control messages.
theorem pending_said (run : Run (Relay.relayRuns cr) past s) {v : Relay.Conn} {ticket : Bytes}
    (hv : s.find v.uid = some v)
    (hwaits : s.tickets ticket = some v.uid) :
    v.pending = ((s.past.heard v.uid).filter Relay.isData).map WsMsg.data ∧
      s.past.heard v.uid <+: wsSpoken Relay.kMaxMessage true (s.past.received v.uid) := by
  obtain ⟨-, hsound, hledger, hwire⟩ := Relay.relay_sane run
  obtain ⟨hne, n, hn, halive, hkind, hpeer, hticket⟩ := hsound.tickets ticket v.uid hwaits
  obtain rfl := Option.some.inj ((Relay.view_node hv).symm.trans hn)
  obtain ⟨hpending, hall⟩ := hledger.held v.uid v.node hn halive ⟨hkind, hticket ▸ hne, hpeer⟩
  exact ⟨hpending.trans (congrArg (List.map WsMsg.data) hall), hwire.heard v.uid⟩

-- A host with that ticket is joined to the viewer: what the viewer has said meanwhile is the
-- first input of the host's link, from then on each is the other's peer.
theorem relay_pairing (hsha : ∀ m, (cr.rdSha1 m).length = 20) (run : Run (Relay.relayRuns cr) past s)
    (hc : s.find c.uid = some c) (hkind : c.kind = .Http) (halive : c.dead = false)
    (hid : Relay.validId cfg.relayId = true)
    (hkey : Relay.validHex cfg.relayKey 32 = true) (hhost : Inline cfg.relayHost)
    (hrandom : (hio.random 0).length = 16)
    {e : Relay.HostEntry} {v : Relay.Conn} {first : Relay.Io} (he : s.hosts cfg.relayId = some e)
    (hregistered : e.key = cfg.relayKey)
    (hv : s.find v.uid = some v) (hasks : v.id = cfg.relayId) (hwaits : s.tickets first.ticket = some v.uid)
    (uid : Nat) (ip : Bytes) (hasked : c.inn ++ data = (Host.Conn.relay cr cfg uid false first.ticket ip hio).out) :
    (Relay.Event.apply cr s (.read c.uid data false rio)).tickets = Function.update s.tickets first.ticket none ∧
      (Relay.Event.apply cr s (.read c.uid data false rio)).find v.uid =
        some { v with ticket := [], peer := some c.uid, pending := [], pendingBytes := 0 } ∧
      v.pending = ((s.past.heard v.uid).filter Relay.isData).map WsMsg.data ∧
      s.past.heard v.uid <+: wsSpoken Relay.kMaxMessage true (s.past.received v.uid) ∧
      ∃ d reply, (Relay.Event.apply cr s (.read c.uid data false rio)).find c.uid = some d ∧ d.kind = .HostData ∧
        d.id = cfg.relayId ∧ d.dead = false ∧ d.peer = some v.uid ∧
        d.out = c.out ++ reply ++ v.pending.flatMap (fun m => rdWsWriteFrame RD_WS_BINARY m none) ∧
        ∀ {σ : Type} (h : Host.Server σ) (k : Host.Conn) (rest : Bytes), h.find k.uid = some k →
          k.relayCtl = false →
          k.wsAccept = (Host.Conn.relay cr cfg uid false first.ticket ip hio).wsAccept → k.inn = reply ++ rest →
          (h.finishRelayUpgrade k).find k.uid = some { k with inn := rest, state := .Hello } := by
  have hsane := Relay.relay_sane run
  have hlen : (rdBase64 (hio.random 0)).length < 128 := by
    rw [rdBase64_length, hrandom]
    decide
  have hout : (Host.Conn.relay cr cfg uid false first.ticket ip hio).out =
      (askHead (ascii "/data" ++ 63 :: Relay.query
      [(ascii "id", v.id), (ascii "key", e.key), (ascii "ticket", first.ticket)]) cfg.relayHost
        (rdBase64 (hio.random 0))
      (ascii "TetherDesk-Host")).bytes := by
    rw [hasks, hregistered, ← dataPath]
    exact Host.relayRequest_data cfg first.ticket (rdBase64 (hio.random 0))
  rw [← hasks] at hid he
  rw [← hregistered] at hkey
  have hjoined : Relay.Joined cr s (Relay.Event.apply cr s (.read c.uid data false rio)) (c.asked data rio) v v.id
      (rdBase64 (hio.random 0)) first.ticket :=
    Relay.read_data hhost (rdBase64_graphic _) hlen (by decide) hsane hc hkind halive hid hkey
      (Relay.ticket_digits first) he hwaits hv
      (hasked.trans hout)
  obtain ⟨hpending, hheard⟩ := pending_said run hv hwaits
  refine ⟨hjoined.tickets, hjoined.viewer, hpending, hheard, _,
    (upgradeHead (rdWsAcceptKey cr (rdBase64 (hio.random 0)))).bytes, hjoined.row, rfl, hasks,
    halive, rfl, congrArg (· ++ _) (acceptUpgrade_out _ _), ?_⟩
  intro σ h k rest hk hdata haccept hinn
  have hshort : k.wsAccept.length < 64 := by
    rw [haccept]
    exact (rdWsAcceptKey_length hsha _).trans_lt (by decide)
  have hgraphic : ∀ b ∈ k.wsAccept, Graphic b := by
    rw [haccept]
    exact rdBase64_graphic _
  have hreply : k.inn = (upgradeHead k.wsAccept).bytes ++ rest := by
    rw [haccept]
    exact hinn
  obtain ⟨hrow, -⟩ := Host.finishRelayUpgrade_whole hk hgraphic hshort hreply
  rw [if_neg (by simp [hdata])] at hrow
  exact hrow

-- A viewer that says two things before its host comes.
def townSaid : Bytes := Host.clientFrame RD_WS_BINARY (ascii "hi") ++ Host.clientFrame RD_WS_BINARY (ascii "you")

def townHeard : Bytes :=
    rdWsWriteFrame RD_WS_BINARY (ascii "hi") none ++ rdWsWriteFrame RD_WS_BINARY (ascii "you") none

def townAsked : List Relay.Event :=
  townEvents ++ [.read 1 (townRequest ++ townSaid) false Relay.quietIo, .accept (ascii "192.0.2.1") 0]

-- The host with its link for that viewer, which the relay has accepted.
def townLinked : List (Host.ServerEvent Host.Desk) :=
  townCalled ++ [.message 0 dialIo, .tcpReady 1 true none [], .received 1 (townReply ++ townHeard) 0]

def townLink : Host.Conn :=
    Host.Conn.relay reference townConfig 1 false Relay.quietIo.ticket (ascii "192.0.2.2") dialIo

theorem relay_pairing_town :
    (Relay.Event.apply reference (meeting townAsked) (.read 2 townLink.out false Relay.quietIo)).tickets =
        Function.update (meeting townAsked).tickets Relay.quietIo.ticket none ∧
      (∃ v, (meeting townAsked).find 1 = some v ∧ v.pending = [ascii "hi", ascii "you"]) ∧
      ∃ past h k, Run (Host.serverRuns reference Host.deskPlatform) past h ∧ h.find k.uid = some k ∧
        k.state = .RelayUpgrade ∧
        k.inn = townReply ++ townHeard ∧
        (h.finishRelayUpgrade k).find k.uid = some { k with inn := townHeard, state := .Hello } := by
  have run := meeting_run townAsked (by decide +kernel)
  obtain ⟨hc, he, hrow, hwaits⟩ : (meeting townAsked).find (newcomer 2 "192.0.2.1").uid =
      some (newcomer 2 "192.0.2.1") ∧
      (meeting townAsked).hosts townConfig.relayId = some ⟨townConfig.relayKey, some 0⟩ ∧
      ((meeting townAsked).find 1).map (fun v => (v.id, v.pending)) =
        some (townConfig.relayId, [ascii "hi", ascii "you"]) ∧
      (meeting townAsked).tickets Relay.quietIo.ticket = some 1 := by
    decide +kernel
  obtain ⟨v, hv, hrow⟩ := Option.map_eq_some_iff.mp hrow
  obtain ⟨hid, hpending⟩ := Prod.mk.inj hrow
  have huid : v.uid = 1 := Relay.find_uid hv
  have hv' := hv
  rw [← huid] at hv' hwaits
  have hrandom : (dialIo.random 0).length = 16 := rfl
  obtain ⟨htickets, -, -, -, d, reply, hd, -, -, -, -, hout, hhost⟩ :=
    @relay_pairing reference _ _ (newcomer 2 "192.0.2.1")
    townLink.out Relay.quietIo townConfig dialIo reference_sha1_length run hc rfl rfl (by decide) (by decide)
      (by decide) hrandom
    _ v Relay.quietIo he rfl hv' hid hwaits 1 (ascii "192.0.2.2") (List.nil_append _)
  refine ⟨htickets, ⟨v, hv, hpending⟩, ?_⟩
  have hsaid : ((Relay.Event.apply reference (meeting townAsked)
      (.read 2 townLink.out false Relay.quietIo)).find 2).map
      Relay.Conn.out = some (townReply ++ townHeard) := by decide +kernel
  have hreply : reply = townReply := by
    have hwhole := hout.symm.trans (Option.some.inj ((congrArg (Option.map Relay.Conn.out) hd).symm.trans hsaid))
    rw [hpending] at hwhole
    have hframes : [ascii "hi", ascii "you"].flatMap (fun m => rdWsWriteFrame RD_WS_BINARY m none) =
        townHeard := by decide
    rw [hframes] at hwhole
    exact List.append_cancel_right hwhole
  have hlinked : (townHost townLinked).any (fun h => h.conns.map Host.Conn.uid = [0, 1] ∧
      (h.find 1).map (fun k => (k.uid, k.relayCtl, k.state)) = some (1, false, .RelayUpgrade) ∧
      (h.find 1).map (fun k => (k.wsAccept, k.inn)) = some (townLink.wsAccept, townReply ++ townHeard)) = true := by
    decide +kernel
  obtain ⟨hpast, h, hrun, -, hrow, hinn⟩ := townHost_run hlinked
  obtain ⟨k, hk, hrow⟩ := Option.map_eq_some_iff.mp hrow
  simp only [hk, Option.map_some, Option.some.injEq, Prod.mk.injEq] at hinn hrow
  obtain ⟨hkuid, hctl, hstate⟩ := hrow
  rw [← hkuid] at hk
  exact ⟨hpast, h, k, hrun, hk, hstate, hinn.2, hhost h k townHeard hk hctl hinn.1 (hinn.2.trans (by rw [hreply]))⟩

end Relayed

end TetherDesk
