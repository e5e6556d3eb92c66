import TetherDesk.Host.Encoder.Size
import TetherDesk.Host.Screen.Lemmas
import TetherDesk.Net.Ws.RoundTrip
import TetherDesk.Relay.Conn
import TetherDesk.Secure.Lengths

namespace TetherDesk

open TetherDesk.Codec TetherDesk.Host TetherDesk.Net TetherDesk.Secure TetherDesk.Relay

-- A w x h frame from the capturer.
structure Captured (w h : Nat) (f : Frame) : Prop where
  width : f.width = w
  height : f.height = h
  stride : 4 * w ≤ f.stride
  pixels : f.stride * h ≤ f.pixels.length

-- What maybe_send_frame queues behind a possible DISPLAY_INFO when it sends all of f
-- at quality 0. A relayed connection is one the host dialled.
def FullUpdate (cr : Crypto) (relayed : Bool) (f : Frame) (wire : Bytes) : Prop :=
  ∃ (c c' : Host.Conn) (now : Nat) (info : ScreenInfo) (threads : Nat) (schedule : List Nat)
      (masks : Nat → Bytes) (m : Bytes),
    (c.dead = false ∧ c.clientWs = relayed) ∧ (c.ch.active = true ∧ c.ch.sendKey.length = 32) ∧
      (c.quality = 0 ∧ (c.fitShadow cr f info (masks 0)).needFull = true) ∧ (masks 1).length = 4 ∧
      c.maybeSendFrame cr (some f) now info threads schedule masks = some c' ∧
      c'.sent = (c.fitShadow cr f info (masks 0)).sent ++ [m] ∧
        c'.out = (c.fitShadow cr f info (masks 0)).out ++ wire

-- rd_ws_next takes the whole of wire as the message m.
def Reads (r : WsReader) (wire m : Bytes) : Prop := ∃ r', rdWsNext r wire = (.got ⟨RD_WS_BINARY, m⟩, r', [])

-- The readers on the way: the viewer's, or the relay's and then the viewer's.
def ReadDirectly (wire : Bytes) : Prop := ∃ m, Reads (rdWsReaderInit RD_MAX_SERVER_MSG false) wire m

def ReadRelayed (wire : Bytes) : Prop :=
  ∃ m, Reads (rdWsReaderInit kMaxMessage true) wire m ∧
    Reads (rdWsReaderInit RD_MAX_SERVER_MSG false) (rdWsWriteFrame RD_WS_BINARY m none) m

-- The longest sealed FRAME: the records, 8 bytes of the message and the tag.
def longestUpdate (w h : Nat) : Nat := tileTotal w h * 13 + w * h * 3 + (8 + RD_TAG_LEN)

section Readers

variable {r : WsReader} {payload : Bytes} {mask : Option Bytes}

theorem reads_fitting (hkeyed : Fragment.Keyed ⟨true, RD_WS_BINARY, mask, payload⟩ r.expectMasked)
    (hidle : r.assemblyOpcode = none) (hmax : r.maxMessage < 2 ^ 64) (hsize : payload.length ≤ r.maxMessage) :
    Reads r (rdWsWriteFrame RD_WS_BINARY payload mask) payload := by
  have hnext := rdWsNext_written r.maxMessage r.expectMasked hmax RD_WS_BINARY payload [] mask (.inl rfl)
      hkeyed hsize r
    ⟨rfl, rfl⟩ hidle
  rw [List.append_nil] at hnext
  exact ⟨_, hnext⟩

-- A frame over the limit is refused as soon as its header is there.
theorem rdWsNext_over (hkeyed : Fragment.Keyed ⟨true, RD_WS_BINARY, mask, payload⟩ r.expectMasked)
    (h64 : payload.length < 2 ^ 64) (hsize : r.maxMessage < payload.length) :
    (rdWsNext r (rdWsWriteFrame RD_WS_BINARY payload mask)).1 = .error := by
  obtain ⟨hrsv, -, -⟩ := first_bits true RD_WS_BINARY (by decide)
  have hparse : wsParse r (rdWsWriteFrame RD_WS_BINARY payload mask) = .error := by
    rw [rdWsWriteFrame_bytes _ _ _ (by decide), bytes_eq _ hkeyed.1, List.cons_append]
    refine (wsParse_length r _ _ hrsv payload.length h64).trans ?_
    unfold wsPayload
    rw [if_pos hsize]
  rw [rdWsNext_eq, hparse]

end Readers

section Host

variable {cr : Crypto} {f : Frame}

theorem fitShadow_kept (c : Host.Conn) (info : ScreenInfo) (mask : Bytes) :
    (c.fitShadow cr f info mask).dead = c.dead ∧ (c.fitShadow cr f info mask).clientWs = c.clientWs ∧
      (c.fitShadow cr f info mask).ch.active = c.ch.active ∧ (c.fitShadow cr f info mask).ch.sendKey =
        c.ch.sendKey ∧
      (c.fitShadow cr f info mask).quality = c.quality := by
  have hsend : ∀ (d : Host.Conn) (msg : Bytes), (d.sendMsg cr msg mask).dead = d.dead ∧
      (d.sendMsg cr msg mask).clientWs = d.clientWs ∧
      (d.sendMsg cr msg mask).ch.active = d.ch.active ∧ (d.sendMsg cr msg mask).ch.sendKey = d.ch.sendKey ∧
      (d.sendMsg cr msg mask).quality = d.quality := by
    intro d msg
    cases hdead : d.dead with
    | true =>
        rw [d.sendMsg_dead cr msg mask hdead]
        exact ⟨hdead, rfl, rfl, rfl, rfl⟩
    | false =>
        obtain ⟨more, sendCtr, h⟩ := d.sendMsg_alive cr msg mask hdead
        rw [h]
        exact ⟨hdead, rfl, rfl, rfl, rfl⟩
  unfold Conn.fitShadow
  split_ifs
  · exact hsend _ _
  · exact ⟨rfl, rfl, rfl, rfl, rfl⟩

-- A message on an active channel goes out as one frame around the sealed bytes.
theorem sendMsg_sealed (hcr : cr.Lengths) (c : Host.Conn) (msg mask : Bytes) (halive : c.dead = false)
    (hactive : c.ch.active = true)
    (hkey : c.ch.sendKey.length = 32) :
    (c.sendMsg cr msg mask).sent = c.sent ++ [msg] ∧
      (c.sendMsg cr msg mask).out = c.out ++ rdWsWriteFrame RD_WS_BINARY (rdChannelSeal cr c.ch msg).1
        (if c.clientWs then some mask else none) := by
  have hlen := rdChannelSeal_length hcr hkey msg
  unfold Conn.sendMsg
  rw [if_neg (by simp [halive])]
  dsimp only
  rw [if_neg (by simp [hactive])]
  by_cases hclient : c.clientWs = true
  · rw [if_pos hclient, if_pos hclient, Conn.wsFrame, if_neg (by simp [halive])]
    exact ⟨rfl, by rw [if_pos hclient]⟩
  · rw [if_neg hclient, if_neg hclient]
    refine ⟨rfl, ?_⟩
    dsimp only
    rw [rdWsWriteHeader, rdWsWriteFrame, hlen, List.cons_append]

theorem frameMessage_length (frameId : Nat) (full : Bool) (tiles : Nat) (records : Bytes) :
    (frameMessage frameId full tiles records).length = 8 + records.length := by
  simp [frameMessage_eq, putU8, putU16, putU32, le16, le32]
  omega

theorem encodeFrame_sealed (hcr : cr.Lengths) {c c' : Host.Conn} {now threads : Nat} {changed : Bool} {budget : Int}
    {schedule : List Nat} {mask : Bytes} (halive : c.dead = false) (hactive : c.ch.active = true)
    (hkey : c.ch.sendKey.length = 32) (h : c.encodeFrame cr f now changed budget threads schedule mask = some c') :
    ∃ st, encode f c.shadow c.needFull c.quality (some c.tileQ) budget (threads + 1) schedule = some st ∧
      (st.tiles = 0 ∧ c'.sent = c.sent ∨
        ∃ id, c'.sent = c.sent ++ [frameMessage id c.needFull st.tiles st.out] ∧
          c'.out = c.out ++ rdWsWriteFrame RD_WS_BINARY
            (rdChannelSeal cr c.ch (frameMessage id c.needFull st.tiles st.out)).1
            (if c.clientWs then some mask else none)) := by
  unfold Conn.encodeFrame at h
  obtain ⟨st, hst, rfl⟩ := Option.map_eq_some_iff.mp h
  refine ⟨st, hst, ?_⟩
  by_cases hnone : st.tiles = 0
  · rw [if_pos hnone]
    exact .inl ⟨hnone, rfl⟩
  · rw [if_neg hnone]
    refine .inr ⟨(c.frameId + 1) % 2 ^ 32, ?_⟩
    refine sendMsg_sealed hcr _ _ _ ?_ ?_ ?_
    · exact halive
    · exact hactive
    · exact hkey

-- The wire of a full update: one frame, its payload as long as the records make it.
theorem FullUpdate.frame (hcr : cr.Lengths) {relayed : Bool} {wire : Bytes} (h : FullUpdate cr relayed f wire) :
    ∃ (payload : Bytes) (mask : Option Bytes), wire = rdWsWriteFrame RD_WS_BINARY payload mask ∧
      Fragment.Keyed ⟨true, RD_WS_BINARY, mask, payload⟩ relayed ∧
      payload.length = ∑ k ∈ Finset.range (tileTotal f.width f.height), (tileRecord f k 0).length +
        (8 + RD_TAG_LEN) := by
  obtain ⟨c, c', now, info, threads, schedule, masks, m, ⟨halive, hrelayed⟩, ⟨hactive, hkey⟩,
      ⟨hquality, hfull⟩, hmask, hsend,
    hsent, hout⟩ := h
  obtain ⟨hdead', hclient', hactive', hkey', hquality'⟩ := @fitShadow_kept cr f c info (masks 0)
  unfold Conn.maybeSendFrame at hsend
  dsimp only at hsend
  generalize c.fitShadow cr f info (masks 0) = fit at *
  obtain ⟨lastChangeUs, stalls, rfl⟩ | ⟨lastChangeUs, changed, budget, -, hencode⟩ :=
    Conn.offerFrame_cases cr fit c' f now threads schedule (masks 1) hsend
  · exact absurd hsent (by simp)
  obtain ⟨st, hst, ⟨-, hsame⟩ | ⟨id, -, hwire⟩⟩ :=
    encodeFrame_sealed hcr (c := { fit with lastChangeUs := lastChangeUs })
    (hdead'.trans halive) (hactive'.trans hactive) (hkey'.symm ▸ hkey) hencode
  · exact absurd (hsame.symm.trans hsent) (by simp)
  dsimp only at hst hwire
  rw [hfull, hquality', hquality] at hst
  obtain ⟨-, hlength⟩ := encode_full_length (Nat.succ_pos threads) hst
  refine ⟨_, _, List.append_cancel_left (hout.symm.trans hwire), ?_, ?_⟩
  · rw [hclient', hrelayed]
    cases relayed with
    | true => exact ⟨rfl, fun key hkey => by rw [← Option.some.inj hkey, hmask]⟩
    | false => exact ⟨rfl, fun key hkey => by cases hkey⟩
  · rw [rdChannelSeal_length hcr (hkey'.symm ▸ hkey), frameMessage_length, hlength]
    omega

-- A viewer that shows f and has asked for it again.
def refreshedViewer (relayed : Bool) (f : Frame) : Host.Conn :=
  { Host.Conn.fresh 0 with
    ch := ⟨true, List.replicate 32 0, List.replicate 32 0, 0, 0⟩
    clientWs := relayed
    shadow := List.replicate (f.width * f.height * 4) 0
    shadowW := f.width
    shadowH := f.height
    lastSeq := f.seq }

theorem offerFrame_refresh {c : Host.Conn} {now threads : Nat} {schedule : List Nat} {mask : Bytes}
    (hfull : c.needFull = true)
    (hsame : f.seq = c.lastSeq) (hlossy : c.lossyTiles = 0)
    (hpace : ¬ sub64 now c.lastFrameUs < Host.kSecond / max 1 (min c.fps c.effFps))
    (hroom : ¬ (sub32 c.frameId c.acked ≥ kMaxFramesInFlight ∨ c.pending > kMaxPendingOut)) :
    c.offerFrame cr f now threads schedule mask = c.encodeFrame cr f now false 0 threads schedule mask := by
  have hold : decide (f.seq ≠ c.lastSeq) = false := by simp [hsame]
  have hrefine : decide (c.qualitySetting = 255 ∧ c.lossyTiles > 0) = false := by simp [hlossy]
  unfold Conn.offerFrame
  simp only [hold, hrefine, hfull, hpace, hroom, Bool.false_eq_true, if_false, Bool.not_false, Bool.not_true,
    false_and, and_false,
    if_true]

-- Every frame with pixels can be sent so.
theorem exists_fullUpdate (hcr : cr.Lengths) (relayed : Bool) (f : Frame)
    (htiles : tileTotal f.width f.height ≠ 0) :
    ∃ wire, FullUpdate cr relayed f wire := by
  let c := refreshedViewer relayed f
  let info : ScreenInfo := ⟨some f, 0, [], false, false⟩
  let mask (_ : Nat) : Bytes := [0, 0, 0, 0]
  have hfit : c.fitShadow cr f info (mask 0) = c := by
    unfold Conn.fitShadow
    rw [if_neg (by simp [c, refreshedViewer])]
  obtain ⟨schedule, st, hst⟩ := encode_exists f c.shadow true 0 (some []) 0 1
  have hoffer : c.offerFrame cr f Host.kSecond 0 schedule (mask 1) =
      c.encodeFrame cr f Host.kSecond false 0 0 schedule (mask 1) :=
    offerFrame_refresh rfl rfl rfl (show ¬ sub64 Host.kSecond 0 < Host.kSecond / max 1 (min 30 30) by decide)
      (show ¬ (sub32 0 0 ≥ kMaxFramesInFlight ∨ 0 > kMaxPendingOut) by decide)
  obtain ⟨c', hc'⟩ : ∃ c', c.encodeFrame cr f Host.kSecond false 0 0 schedule (mask 1) = some c' :=
    ⟨_, Option.map_eq_some_iff.mpr ⟨st, hst, rfl⟩⟩
  obtain ⟨st', hst', ⟨hnone, -⟩ | ⟨id, hsent, hout⟩⟩ :=
    encodeFrame_sealed hcr (c := c) rfl rfl (List.length_replicate) hc'
  · exact absurd ((encode_full_length Nat.one_pos hst').1.symm.trans hnone) htiles
  · generalize frameMessage id c.needFull st'.tiles st'.out = m at hsent hout
    generalize rdWsWriteFrame _ _ _ = wire at hout
    refine ⟨wire, c, c', Host.kSecond, info, 0, schedule, mask, m, ⟨rfl, rfl⟩, ⟨rfl, List.length_replicate⟩,
      ⟨rfl, ?_⟩, rfl, ?_, ?_,
      ?_⟩
    · rw [hfit]
      rfl
    · unfold Conn.maybeSendFrame
      dsimp only
      rw [hfit, hoffer, hc']
    · rw [hfit]
      exact hsent
    · rw [hfit]
      exact hout

end Host

section Sizes

variable {cr : Crypto} {w h : Nat}

theorem update_length (hcr : cr.Lengths) {f : Frame} {relayed : Bool} {wire : Bytes} (hf : Captured w h f)
    (hwire : FullUpdate cr relayed f wire) :
    ∃ (payload : Bytes) (mask : Option Bytes), wire = rdWsWriteFrame RD_WS_BINARY payload mask ∧
      Fragment.Keyed ⟨true, RD_WS_BINARY, mask, payload⟩ relayed ∧ payload.length ≤ longestUpdate w h := by
  obtain ⟨payload, mask, rfl, hkeyed, hlen⟩ := hwire.frame hcr
  have hrecords := records_length_le f 0
  rw [hf.width, hf.height] at hrecords hlen
  refine ⟨payload, mask, rfl, hkeyed, ?_⟩
  rw [hlen, longestUpdate]
  omega

theorem longestUpdate_lt (hw : w ≤ 7680) (hh : h ≤ 4320) : longestUpdate w h ≤ RD_MAX_SERVER_MSG := by
  have harea : w * h ≤ 7680 * 4320 := Nat.mul_le_mul hw hh
  have htiles : tileTotal w h ≤ 120 * 68 := by
    refine Nat.mul_le_mul ?_ ?_
    · rw [tilesX, rd_tile]
      omega
    · rw [tilesY, rd_tile]
      omega
  unfold longestUpdate RD_MAX_SERVER_MSG RD_TAG_LEN
  omega

-- Uncompressible contents reach the bound.
theorem exists_longest (hcr : cr.Lengths) (relayed : Bool) (htiles : tileTotal w h ≠ 0) :
    ∃ f wire, Captured w h f ∧ FullUpdate cr relayed f wire ∧
      ∃ (payload : Bytes) (mask : Option Bytes), wire = rdWsWriteFrame RD_WS_BINARY payload mask ∧
        Fragment.Keyed ⟨true, RD_WS_BINARY, mask, payload⟩ relayed ∧ payload.length = longestUpdate w h := by
  obtain ⟨f, ⟨rfl, rfl⟩, ⟨hstride, hpixels⟩, hrecords⟩ := exists_raw_frame w h
  obtain ⟨wire, hwire⟩ := exists_fullUpdate hcr relayed f htiles
  obtain ⟨payload, mask, heq, hkeyed, hlen⟩ := hwire.frame hcr
  refine ⟨f, wire, ⟨rfl, rfl, hstride.ge, hpixels.ge⟩, hwire, payload, mask, heq, hkeyed, ?_⟩
  rw [hlen, hrecords, longestUpdate]

theorem tileTotal_eq_zero (h0 : tileTotal w h = 0) : w * h = 0 := by
  have hsum := sum_areas w h
  rw [h0, Finset.sum_range_zero] at hsum
  exact hsum.symm

theorem read_directly (hcr : cr.Lengths) (hw : w ≤ 7680) (hh : h ≤ 4320) {f : Frame} {wire : Bytes}
    (hf : Captured w h f)
    (hwire : FullUpdate cr false f wire) : ReadDirectly wire := by
  obtain ⟨payload, mask, rfl, hkeyed, hlen⟩ := update_length hcr hf hwire
  exact ⟨payload, reads_fitting hkeyed rfl (by decide) (hlen.trans (longestUpdate_lt hw hh))⟩

theorem read_relayed (hcr : cr.Lengths) (hw : w ≤ 7680) (hh : h ≤ 4320)
    (hfits : longestUpdate w h ≤ kMaxMessage) {f : Frame}
    {wire : Bytes} (hf : Captured w h f) (hwire : FullUpdate cr true f wire) : ReadRelayed wire := by
  obtain ⟨payload, mask, rfl, hkeyed, hlen⟩ := update_length hcr hf hwire
  exact ⟨payload, reads_fitting hkeyed rfl (by decide) (hlen.trans hfits),
    reads_fitting ⟨rfl, by simp⟩ rfl (by decide) (hlen.trans (longestUpdate_lt hw hh))⟩

theorem relay_refuses (hcr : cr.Lengths) (hw : w ≤ 7680) (hh : h ≤ 4320) (hlong : kMaxMessage < longestUpdate w h) :
    ∃ f wire, Captured w h f ∧ FullUpdate cr true f wire ∧
        (rdWsNext (rdWsReaderInit kMaxMessage true) wire).1 = .error := by
  have htiles : tileTotal w h ≠ 0 := by
    intro h0
    rw [longestUpdate, h0, tileTotal_eq_zero h0] at hlong
    exact absurd hlong (by decide)
  obtain ⟨f, wire, hf, hwire, payload, mask, rfl, hkeyed, hlen⟩ := exists_longest hcr true htiles
  have hmax := longestUpdate_lt hw hh
  refine ⟨f, _, hf, hwire, rdWsNext_over hkeyed ?_ (hlen ▸ hlong)⟩
  rw [hlen]
  exact Nat.lt_of_le_of_lt hmax (by decide)

theorem Reads.not_error {r : WsReader} {wire m : Bytes} (h : Reads r wire m) : (rdWsNext r wire).1 ≠ .error := by
  obtain ⟨r', hnext⟩ := h
  rw [hnext]
  simp

-- Directly a frame of any contents is always taken. Through the relay that holds of a
-- size exactly if raw pixels of it are.
theorem full_updates_fit (hcr : cr.Lengths) (hw : w ≤ 7680) (hh : h ≤ 4320) :
    (∀ f wire, Captured w h f → FullUpdate cr false f wire → ReadDirectly wire) ∧
    ((∀ f wire, Captured w h f → FullUpdate cr true f wire → ReadRelayed wire) ↔
      tileTotal w h * 13 + w * h * 3 + 24 ≤ kMaxMessage) := by
  refine ⟨fun f wire hf hwire => read_directly hcr hw hh hf hwire, ?_, fun hfits f wire hf hwire => ?_⟩
  · intro hall
    by_contra hlong
    obtain ⟨f, wire, hf, hwire, herror⟩ := relay_refuses hcr hw hh (Nat.not_le.mp hlong)
    obtain ⟨m, hread, -⟩ := hall f wire hf hwire
    exact hread.not_error herror
  · exact read_relayed hcr hw hh hfits hf hwire

theorem full_updates_fit_4k :
    tileTotal 3840 2160 * 13 + 3840 * 2160 * 3 + 24 ≤ kMaxMessage ∧
      ∀ f wire, Captured 3840 2160 f → FullUpdate reference true f wire → ReadRelayed wire := by
  have hfits : tileTotal 3840 2160 * 13 + 3840 * 2160 * 3 + 24 ≤ kMaxMessage := by decide
  exact ⟨hfits, (full_updates_fit reference_lengths (by decide) (by decide)).2.mpr hfits⟩

-- 8160 tiles of 64 x 64 raw pixels, and the relay closes the host's link.
theorem relay_refuses_8k :
    ∃ f wire, Captured 7680 4320 f ∧ FullUpdate reference true f wire ∧
      (rdWsNext (rdWsReaderInit kMaxMessage true) wire).1 = .error ∧ ¬ ReadRelayed wire := by
  obtain ⟨f, wire, hf, hwire, herror⟩ :=
    relay_refuses (w := 7680) (h := 4320) reference_lengths (by decide) (by decide) (by decide)
  exact ⟨f, wire, hf, hwire, herror, fun ⟨_, hread, _⟩ => hread.not_error herror⟩

end Sizes

end TetherDesk
