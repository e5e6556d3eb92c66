import TetherDesk.Host.Screen.Lemmas
import TetherDesk.Net.Ws.RoundTrip
import TetherDesk.Relay.Refine
import TetherDesk.Secure.Inverse

namespace TetherDesk

open TetherDesk.Lib TetherDesk.Net TetherDesk.Secure

-- send_msg for each message, with the key its frame takes on a relay link.
def Host.Conn.sendMsgs (cr : Crypto) (c : Host.Conn) (sends : List (Bytes × Bytes)) : Host.Conn :=
  sends.foldl (fun c m => c.sendMsg cr m.1 m.2) c

-- rd_channel_open for each message; none once it fails.
def openAll (cr : Crypto) (ch : Channel) : List Bytes → Option (List Bytes × Channel)
  | [] => some ([], ch)
  | m :: ms =>
      let (n, plain, ch) := rdChannelOpen cr ch m (List.replicate m.length 0)
      if n < 0 then none
      else
        match openAll cr ch ms with
        | none => none
        | some (ps, ch) => some (plain.take n.toNat :: ps, ch)

-- However the bytes are cut and whenever rd_ws_next is called, it never fails, gives
-- binary messages, and the channel opens them as these.
def Arrive (cr : Crypto) (max : Nat) (ch : Channel) (bytes : Bytes) (msgs : List Bytes) (ch' : Channel) : Prop :=
  ∀ ops : List (Decoder.Op UInt8), ops.flatMap Decoder.Op.chunk = bytes →
    ∃ os r', wsDecoder.run (ops ++ List.replicate (msgs.length + 1) .call) (rdWsReaderInit max false) [] =
        (os ++ [.more], r', []) ∧
      (∀ o ∈ os, o ≠ .error) ∧ (∀ m ∈ os.filterMap Outcome.message, m.opcode = RD_WS_BINARY) ∧
      openAll cr ch ((os.filterMap Outcome.message).map WsMsg.data) = some (msgs, ch')

-- The relay has paired u with w and can still send to w.
def Relay.Globals.Forwards (s : Relay.Globals) (u w : Nat) (out : Bytes) : Prop :=
  (∃ c, s.find u = some c ∧ c.kind ≠ .HostCtl ∧ c.peer = some w) ∧ ∃ d, s.find w = some d ∧
    d.dead = false ∧ d.out = out

section Seal

variable {cr : Crypto}

def sealAll (cr : Crypto) : Channel → List Bytes → List Bytes
  | _, [] => []
  | ch, m :: ms => (rdChannelSeal cr ch m).1 :: sealAll cr (rdChannelSeal cr ch m).2 ms

def sealedChannel (cr : Crypto) (ch : Channel) (msgs : List Bytes) : Channel :=
  msgs.foldl (fun ch m => (rdChannelSeal cr ch m).2) ch

theorem sealAll_length (h : cr.Lengths) {ch : Channel} (hkey : ch.sendKey.length = 32)
    {msgs : List Bytes} {max : Nat}
    (hfit : ∀ m ∈ msgs, m.length + RD_TAG_LEN ≤ max) : ∀ p ∈ sealAll cr ch msgs, p.length ≤ max := by
  induction msgs generalizing ch with
  | nil => exact nofun
  | cons m ms ih =>
      refine List.forall_mem_cons.mpr ⟨?_, ih hkey fun m hm => hfit m (List.mem_cons_of_mem _ hm)⟩
      rw [rdChannelSeal_length h hkey]
      exact hfit m List.mem_cons_self

-- What is sealed in order is opened in order, and the counters stay in step.
theorem openAll_sealAll (h : cr.Sound) {ch v : Channel} (hkey : ch.sendKey = v.recvKey)
    (hctr : ch.sendCtr = v.recvCtr)
    (hlen : v.recvKey.length = 32) (msgs : List Bytes) :
    openAll cr v (sealAll cr ch msgs) = some (msgs, { v with recvCtr := (sealedChannel cr ch msgs).sendCtr }) := by
  induction msgs generalizing ch v with
  | nil => rw [sealAll, openAll, sealedChannel, List.foldl_nil, hctr]
  | cons m ms ih =>
      have hrest : openAll cr { v with recvCtr := (v.recvCtr + 1) % 2 ^ 64 }
          (sealAll cr (rdChannelSeal cr ch m).2 ms) =
          some (ms, { v with recvCtr := (sealedChannel cr (rdChannelSeal cr ch m).2 ms).sendCtr }) :=
        ih hkey (congrArg (fun n => (n + 1) % 2 ^ 64) hctr) hlen
      rw [sealAll, openAll, rdChannelOpen_seal h hkey hctr hlen]
      dsimp only
      rw [if_neg (by omega), hrest]
      simp [sealedChannel]

end Seal

section Send

variable {cr : Crypto} {c : Host.Conn}

-- On a direct connection the header and the sealed message are one unmasked frame.
theorem sendMsg_frame (h : cr.Lengths) (halive : c.dead = false) (hactive : c.ch.active = true)
    (hkey : c.ch.sendKey.length = 32) (m mask : Bytes) : c.sendMsg cr m mask = { c with
      sent := c.sent ++ [m]
      ch := (rdChannelSeal cr c.ch m).2
      out := c.out ++
        rdWsWriteFrame RD_WS_BINARY (rdChannelSeal cr c.ch m).1 (if c.clientWs then some mask else none) } := by
  have hlen := rdChannelSeal_length h hkey m
  unfold Host.Conn.sendMsg Host.Conn.wsFrame
  rw [if_neg (by simp [halive])]
  dsimp only
  rw [if_neg (by simp [hactive])]
  by_cases hclient : c.clientWs = true
  · rw [if_pos hclient, if_neg (by simp [halive]), if_pos hclient]
  · rw [if_neg hclient, if_neg hclient, ← hlen]
    rfl

-- The frames of the messages, each with its key on a relay link.
def sealedFrames (cr : Crypto) (masked : Bool) (ch : Channel) (sends : List (Bytes × Bytes)) : List Fragment :=
  (sealAll cr ch (sends.map Prod.fst)).zipWith
    (fun p mask => ⟨true, RD_WS_BINARY, if masked then some mask else none, p⟩)
    (sends.map Prod.snd)

theorem sendMsgs_frames (h : cr.Lengths) (halive : c.dead = false) (hactive : c.ch.active = true)
    (hkey : c.ch.sendKey.length = 32) (sends : List (Bytes × Bytes)) :
    (c.sendMsgs cr sends).out = c.out ++ (sealedFrames cr c.clientWs c.ch sends).flatMap Fragment.bytes ∧
      (c.sendMsgs cr sends).ch = sealedChannel cr c.ch (sends.map Prod.fst) := by
  induction sends generalizing c with
  | nil => exact ⟨(List.append_nil _).symm, rfl⟩
  | cons m ms ih =>
      have hframe := sendMsg_frame h halive hactive hkey m.1 m.2
      obtain ⟨hout, hch⟩ :=
        ih (c := c.sendMsg cr m.1 m.2) (by rw [hframe]; exact halive) (by rw [hframe]; exact hactive)
        (by rw [hframe]; exact hkey)
      have hnext : c.sendMsgs cr (m :: ms) = (c.sendMsg cr m.1 m.2).sendMsgs cr ms := rfl
      rw [hnext, hout, hch, hframe]
      refine ⟨?_, rfl⟩
      dsimp only
      rw [rdWsWriteFrame_bytes _ _ _ (by decide), List.append_assoc]
      rfl

theorem sealedFrames_legal (masked : Bool) (ch : Channel) (sends : List (Bytes × Bytes)) :
    Legal none (sealedFrames cr masked ch sends)
      ((sealAll cr ch (sends.map Prod.fst)).map (⟨RD_WS_BINARY, ·⟩)) := by
  induction sends generalizing ch with
  | nil => exact .done
  | cons m ms ih => exact .whole _ _ _ (.inl rfl) (ih _)

theorem sealedFrames_keyed (masked : Bool) (ch : Channel) (sends : List (Bytes × Bytes))
    (hmask : masked = true → ∀ m ∈ sends, m.2.length = 4) : ∀ f ∈ sealedFrames cr masked ch sends,
      f.Keyed masked := by
  induction sends generalizing ch with
  | nil => exact nofun
  | cons m ms ih =>
      refine List.forall_mem_cons.mpr ⟨?_, ih _ fun h m hm => hmask h m (List.mem_cons_of_mem _ hm)⟩
      cases masked with
      | false => exact ⟨rfl, by simp⟩
      | true => exact ⟨rfl, by simpa using hmask rfl m List.mem_cons_self⟩

end Send

section Receive

variable {cr : Crypto} {ch v : Channel} {max : Nat} {sends : List (Bytes × Bytes)}

theorem sealAll_count (cr : Crypto) (ch : Channel) (msgs : List Bytes) : (sealAll cr ch msgs).length =
    msgs.length := by
  induction msgs generalizing ch with
  | nil => rfl
  | cons m ms ih => rw [sealAll, List.length_cons, List.length_cons, ih]

theorem sealed_fit (h : cr.Lengths) (hkey : ch.sendKey.length = 32)
    (hfit : ∀ m ∈ sends, m.1.length + RD_TAG_LEN ≤ max) :
    ∀ m ∈ (sealAll cr ch (sends.map Prod.fst)).map (WsMsg.mk RD_WS_BINARY), m.data.length ≤ max := by
  intro m hm
  obtain ⟨p, hp, rfl⟩ := List.mem_map.mp hm
  refine sealAll_length h hkey (fun q hq => ?_) p hp
  obtain ⟨n, hn, rfl⟩ := List.mem_map.mp hq
  exact hfit n hn

-- Unmasked frames of sealed messages reach the viewer as the messages.
theorem sealed_arrive (h : cr.Sound) (hkey : ch.sendKey = v.recvKey) (hctr : ch.sendCtr = v.recvCtr)
    (hlen : v.recvKey.length = 32) (hmax : max < 2 ^ 64) (hfit : ∀ m ∈ sends, m.1.length + RD_TAG_LEN ≤ max) :
    Arrive cr max v ((sealedFrames cr false ch sends).flatMap Fragment.bytes) (sends.map Prod.fst)
      { v with recvCtr := (sealedChannel cr ch (sends.map Prod.fst)).sendCtr } := by
  intro ops hops
  have hsize : ∀ m ∈ (sealAll cr ch (sends.map Prod.fst)).map (WsMsg.mk RD_WS_BINARY), m.data.length ≤ max :=
    sealed_fit h.toLengths (hkey ▸ hlen) hfit
  obtain ⟨os, r', hrun, hok, hmsgs⟩ := wsDecoder_legal max false hmax (sealedFrames_legal false ch sends)
    (sealedFrames_keyed false ch sends nofun) hsize ops hops
  rw [List.length_map, sealAll_count] at hrun
  refine ⟨os, r', hrun, hok, ?_, ?_⟩
  · rw [hmsgs]
    intro m hm
    obtain ⟨p, -, rfl⟩ := List.mem_map.mp hm
    rfl
  · rw [hmsgs, List.map_map]
    exact (congrArg _ (List.map_id _)).trans (openAll_sealAll h hkey hctr hlen _)

-- What the relay writes for the frames it has read.
theorem sealedFrames_rewritten (ch : Channel) (sends : List (Bytes × Bytes)) :
    ((sealAll cr ch (sends.map Prod.fst)).map (WsMsg.mk RD_WS_BINARY)).flatMap
        (fun m => rdWsWriteFrame m.opcode m.data none) =
      (sealedFrames cr false ch sends).flatMap Fragment.bytes := by
  induction sends generalizing ch with
  | nil => rfl
  | cons m ms ih =>
      rw [List.map_cons, sealAll, List.map_cons, List.flatMap_cons, ih,
        rdWsWriteFrame_bytes _ _ _ (show RD_WS_BINARY < 16 by decide)]
      rfl

end Receive

section Forward

open TetherDesk.Relay

variable {s : Globals} {u w : Nat} {out : Bytes}

theorem Relay.Globals.Forwards.message (h : s.Forwards u w out) {m : WsMsg} (hm : m.opcode = RD_WS_BINARY) :
    (s.handleWsMessage u m).Forwards u w (out ++ rdWsWriteFrame m.opcode m.data none) := by
  obtain ⟨⟨c, hc, hkind, hpeer⟩, d, hd, halive, hout⟩ := h
  have hsent : s.handleWsMessage u m = (s.hear u m).wsSend (some u) w m.opcode m.data := by
    unfold Globals.handleWsMessage
    dsimp only
    rw [show (s.hear u m).find u = some c from hc]
    dsimp only
    rw [if_neg (by rw [hm]; decide), if_neg (by rw [hm]; decide), if_neg (by rw [hm]; decide), if_neg hkind, hpeer]
  have hmodify : ∀ x, (s.handleWsMessage u m).find x =
      (s.modify w fun c => { c with out := c.out ++ rdWsWriteFrame m.opcode m.data none }).find x := by
    intro x
    rw [hsent]
    unfold Globals.wsSend
    rw [show (s.hear u m).find w = some d from hd]
    dsimp only
    rw [if_neg (by simp [halive])]
    rfl
  have hfind : ∀ x, (s.handleWsMessage u m).find x = if x = w then
      (s.find w).map fun c => { c with out := c.out ++ rdWsWriteFrame m.opcode m.data none } else s.find x := by
    intro x
    rw [hmodify]
    exact find_modify fun _ h => h
  refine ⟨?_, { d with out := d.out ++ rdWsWriteFrame m.opcode m.data none }, ?_, halive, by rw [hout]⟩
  · rw [hfind]
    by_cases hsame : u = w
    · subst hsame
      rw [if_pos rfl, hc]
      exact ⟨_, rfl, hkind, hpeer⟩
    · rw [if_neg hsame]
      exact ⟨c, hc, hkind, hpeer⟩
  · rw [hfind, if_pos rfl, hd]
    rfl

theorem Relay.Globals.Forwards.messages (h : s.Forwards u w out) {msgs : List WsMsg}
    (hmsgs : ∀ m ∈ msgs, m.opcode = RD_WS_BINARY) :
    (msgs.foldl (fun s m => s.handleWsMessage u m) s).Forwards u w
      (out ++ msgs.flatMap fun m => rdWsWriteFrame m.opcode m.data none) := by
  induction msgs generalizing s out with
  | nil => simpa using h
  | cons m ms ih =>
      have hrest := ih (h.message (hmsgs m List.mem_cons_self)) fun m hm => hmsgs m (List.mem_cons_of_mem _ hm)
      rwa [List.append_assoc] at hrest

end Forward

-- The two ways from send_msg to the viewer, and what the direct one appends.
theorem message_pipeline {c : Host.Conn} {v : Channel} {max : Nat} {sends : List (Bytes × Bytes)}
    (halive : c.dead = false)
    (hactive : c.ch.active = true) (hlen : c.ch.sendKey.length = 32) (hkey : v.recvKey = c.ch.sendKey)
    (hctr : v.recvCtr = c.ch.sendCtr) (hmax : max < 2 ^ 64) (hfit : ∀ m ∈ sends, m.1.length + RD_TAG_LEN ≤ max) :
    (c.clientWs = false →
      Arrive reference max v ((c.sendMsgs reference sends).out.drop c.out.length) (sends.map Prod.fst)
          { v with recvCtr := (c.sendMsgs reference sends).ch.sendCtr } ∧
        ∀ m mask, (c.sendMsg reference m mask).out =
          c.out ++ rdWsWriteFrame RD_WS_BINARY (rdChannelSeal reference c.ch m).1 none) ∧
    (c.clientWs = true → (∀ m ∈ sends, m.2.length = 4) →
      ∀ (relayMax : Nat) (s : Relay.Globals) (u w : Nat) (out : Bytes), relayMax < 2 ^ 64 →
        (∀ m ∈ sends, m.1.length + RD_TAG_LEN ≤ relayMax) → s.Forwards u w out →
        ∀ ops : List (Decoder.Op UInt8), ops.flatMap Decoder.Op.chunk =
          (c.sendMsgs reference sends).out.drop c.out.length →
          ∃ os r' d, wsDecoder.run (ops ++ List.replicate (sends.length + 1) .call)
              (rdWsReaderInit relayMax true) [] =
              (os ++ [.more], r', []) ∧ (∀ o ∈ os, o ≠ .error) ∧
            ((os.filterMap Outcome.message).foldl (fun s m => s.handleWsMessage u m) s).find w = some d ∧
            Arrive reference max v (d.out.drop out.length) (sends.map Prod.fst)
              { v with recvCtr := (c.sendMsgs reference sends).ch.sendCtr }) := by
  have hcr := reference_sound
  obtain ⟨hout, hch⟩ := sendMsgs_frames hcr.toLengths halive hactive hlen sends
  have harrive := sealed_arrive hcr hkey.symm hctr.symm (hkey ▸ hlen) hmax hfit
  rw [hout, hch, List.drop_left]
  refine ⟨fun hdirect => ⟨?_, fun m mask => ?_⟩,
    fun hclient hmask relayMax s u w out hrelay hrelayFit hpair ops hops => ?_⟩
  · rw [hdirect]
    exact harrive
  · rw [sendMsg_frame hcr.toLengths halive hactive hlen, hdirect]
    rfl
  · rw [hclient] at hops
    obtain ⟨os, r', hrun, hok, hmsgs⟩ := wsDecoder_legal relayMax true hrelay (sealedFrames_legal true c.ch sends)
      (sealedFrames_keyed true c.ch sends fun _ => hmask) (sealed_fit hcr.toLengths hlen hrelayFit) ops hops
    rw [List.length_map, sealAll_count, List.length_map] at hrun
    have hbinary : ∀ m ∈ os.filterMap Outcome.message, m.opcode = RD_WS_BINARY := by
      rw [hmsgs]
      intro m hm
      obtain ⟨p, -, rfl⟩ := List.mem_map.mp hm
      rfl
    obtain ⟨-, d, hd, -, hdout⟩ := hpair.messages hbinary
    refine ⟨os, r', d, hrun, hok, hd, ?_⟩
    rw [hdout, hmsgs, List.drop_left, sealedFrames_rewritten]
    exact harrive

-- The two ends of a channel, and a relay between them.
def linkChannel (isHost : Bool) : Channel :=
  ⟨true, List.replicate 32 (if isHost then 1 else 2), List.replicate 32 (if isHost then 2 else 1), 0, 0⟩

def linkConn (relayed : Bool) : Host.Conn :=
  { Host.Conn.fresh 0 with clientWs := relayed, ch := linkChannel true, state := .Active }

def linkRelay : Relay.Globals :=
  { Relay.Globals.started [] with
    conns :=
      [{ Relay.Conn.fresh 0 with kind := .HostData, peer := some 1 },
       { Relay.Conn.fresh 1 with kind := .Viewer, peer := some 0 }] }

-- Three messages, one of them empty, and the masks that a relayed connection draws.
def greetings (relayed : Bool) : List (Bytes × Bytes) :=
  [(ascii "hi", if relayed then [1, 2, 3, 4] else []), ([], if relayed then [5, 6, 7, 8] else []),
    (ascii "bye", if relayed then [9, 10, 11, 12] else [])]

theorem message_pipeline_hi :
    Arrive reference 100 (linkChannel false) (((linkConn false).sendMsgs reference (greetings false)).out.drop 0)
        [ascii "hi", [], ascii "bye"] { linkChannel false with recvCtr := 3 } ∧
      linkRelay.Forwards 0 1 [] ∧
      ∀ ops : List (Decoder.Op UInt8),
        ops.flatMap Decoder.Op.chunk = ((linkConn true).sendMsgs reference (greetings true)).out.drop 0 →
          ∃ os r' d, wsDecoder.run (ops ++ List.replicate 4 .call) (rdWsReaderInit 100 true) [] =
            (os ++ [.more], r', []) ∧
            (∀ o ∈ os, o ≠ .error) ∧
            ((os.filterMap Outcome.message).foldl (fun s m => s.handleWsMessage 0 m) linkRelay).find 1 = some d ∧
            Arrive reference 100 (linkChannel false) (d.out.drop 0) [ascii "hi", [], ascii "bye"]
              { linkChannel false with recvCtr := 3 } := by
  have hpair : linkRelay.Forwards 0 1 [] := ⟨⟨_, rfl, by decide, rfl⟩, _, rfl, rfl, rfl⟩
  have hdirect := @message_pipeline (linkConn false) (linkChannel false) 100 (greetings false)
    rfl rfl rfl rfl rfl (by decide) (by decide)
  have hrelayed := @message_pipeline (linkConn true) (linkChannel false) 100 (greetings true)
    rfl rfl rfl rfl rfl (by decide) (by decide)
  have hcount : ∀ relayed, ((linkConn relayed).sendMsgs reference (greetings relayed)).ch.sendCtr =
      3 := by decide +kernel
  rw [hcount] at hdirect hrelayed
  exact ⟨(hdirect.1 rfl).1, hpair, hrelayed.2 rfl (by decide) 100 linkRelay 0 1 [] (by decide) (by decide) hpair⟩

end TetherDesk
