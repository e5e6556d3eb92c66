import TetherDesk.Host.Server.Authentication
import TetherDesk.Host.Server.Outcomes
import TetherDesk.Host.Server.Rehearsal

namespace TetherDesk.Host

open TetherDesk.Net TetherDesk.Secure TetherDesk.Lib.Table TetherDesk.Lib.Transition

section Kept

variable {σ : Type} (cr : Crypto) (plat : Platform σ) (s : Server σ) {c : Conn} (r : Reader) (io : Io)

theorem ite_lastClip {p : Prop} [Decidable p] {a b : Server σ} {text : Bytes} (ha : a.lastClip = text)
    (hb : b.lastClip = text) : (if p then a else b).lastClip = text := by
  split <;> assumption

theorem switchDisplay_lastClip (index : Int) (mask : Nat → Bytes) :
    (s.switchDisplay cr plat index mask).lastClip = s.lastClip := by
  unfold Server.switchDisplay
  split
  · rfl
  · dsimp only
    split <;> rfl

theorem settings_lastClip : (s.settings cr plat c r io).lastClip = s.lastClip := by
  unfold Server.settings
  dsimp only
  refine ite_lastClip rfl ?_
  have hsharp : ∀ t : Server σ, t.lastClip = s.lastClip → (if (rdGetU8 (rdGetU8 (rdGetU8 r).2).2).1 ≠
      plat.capturer.currentDisplay t.os then
      if (!c.viewOnly) = true then t.switchDisplay cr plat (rdGetU8 (rdGetU8 (rdGetU8 r).2).2).1 (io.mask 2)
      else t.sendTo cr c.uid (noticeMsg (ascii "View-only viewers can't switch displays")) (io.mask 3 c.uid)
      else t).lastClip = s.lastClip := fun t ht =>
    ite_lastClip (ite_lastClip ((switchDisplay_lastClip cr plat t _ _).trans ht) ht) ht
  exact hsharp _ (ite_lastClip (switchDisplay_lastClip cr plat _ _ _) rfl)

theorem pointer_lastClip : (s.pointer plat c r).lastClip = s.lastClip := by
  unfold Server.pointer
  dsimp only
  split <;> rfl

theorem key_lastClip : (s.key plat c r).lastClip = s.lastClip := by
  unfold Server.key
  dsimp only
  split <;> rfl

theorem chat_lastClip : (s.chat cr c r io).lastClip = s.lastClip := by
  unfold Server.chat
  dsimp only
  split <;> rfl

theorem fileBegin_lastClip : (s.fileBegin cr plat c r io).lastClip = s.lastClip := by
  unfold Server.fileBegin Server.beginUpload
  dsimp only
  split_ifs
  all_goals try rfl
  split <;> rfl

theorem finishUpload_lastClip (id : Nat) (ok : Bool) (text mask : Bytes) :
    (s.finishUpload cr plat c id ok text mask).lastClip = s.lastClip := by
  unfold Server.finishUpload
  split <;> rfl

theorem uploadChunk_lastClip (mask : Bytes) : (s.uploadChunk cr plat c r mask).lastClip = s.lastClip := by
  unfold Server.uploadChunk
  dsimp only
  split
  · rfl
  · split
    · rfl
    · split_ifs
      · exact finishUpload_lastClip cr plat s _ _ _ _
      all_goals first | exact finishUpload_lastClip cr plat _ _ _ _ _ | rfl

theorem uploadEnd_lastClip (mask : Bytes) : (s.uploadEnd cr plat c r mask).lastClip = s.lastClip := by
  unfold Server.uploadEnd
  dsimp only
  split
  · rfl
  · split
    · rfl
    · split <;> exact finishUpload_lastClip cr plat s _ _ _ _

theorem handleSessionMessage_lastClip (type : Nat) (hno : type ≠ RD_C_CLIPBOARD) :
    (s.handleSessionMessage cr plat c r io type).lastClip = s.lastClip :=
  handleSessionMessage_cases (P := fun t : Server σ => t.lastClip = s.lastClip) cr plat s c r io type (fun _ => rfl)
    (fun _ => rfl) (fun _ => settings_lastClip cr plat s r io) (fun _ => pointer_lastClip plat s r)
    (fun _ => key_lastClip plat s r) (fun h => absurd h hno) (fun _ => chat_lastClip cr s r io)
    (fun _ => rfl) (fun _ => fileBegin_lastClip cr plat s r io) (fun _ => uploadChunk_lastClip cr plat s r _)
    (fun _ => uploadEnd_lastClip cr plat s r _) rfl

theorem closeConn_lastClip (reason : Bytes) : (s.closeConn c reason).lastClip = s.lastClip :=
  congrArg (fun o => o.2.2.1) (closeConn_outer s c reason)

theorem openRelayConn_lastClip (control : Bool) (ticket viewerIp : Bytes) :
    (s.openRelayConn cr control ticket viewerIp io).lastClip = s.lastClip :=
  congrArg (fun o => o.2.2.1) (openRelayConn_outer cr s control ticket viewerIp io)

theorem relayOpen_lastClip (m : Bytes) : (s.relayOpen cr c m io).lastClip = s.lastClip := by
  unfold Server.relayOpen
  refine ite_lastClip ?_ rfl
  split
  · rfl
  · exact ite_lastClip (openRelayConn_lastClip cr s io _ _ _) rfl

theorem toggleViewOnly_lastClip : (s.toggleViewOnly cr plat c io).lastClip = s.lastClip := by
  unfold Server.toggleViewOnly
  dsimp only
  by_cases h : (!c.viewOnly) = true ∧ c.sentInput = true
  · rw [if_pos h]
    rfl
  · rw [if_neg h]
    rfl

theorem handleConsoleLine_lastClip (raw : Bytes) : (s.handleConsoleLine cr plat raw io).lastClip = s.lastClip := by
  unfold Server.handleConsoleLine
  dsimp only
  refine ite_lastClip rfl (ite_lastClip rfl (ite_lastClip ?_ (ite_lastClip ?_ (ite_lastClip (ite_lastClip rfl rfl)
    (ite_lastClip rfl (ite_lastClip rfl rfl))))))
  · exact ite_lastClip rfl rfl
  · split
    · rfl
    · exact ite_lastClip rfl (toggleViewOnly_lastClip cr plat s io)

theorem consoleLine_lastClip : (s.consoleLine cr plat io).lastClip = s.lastClip := by
  unfold Server.consoleLine
  exact ite_lastClip (handleConsoleLine_lastClip cr plat _ io _) rfl

theorem flush_lastClip (answers : List SockAnswer) : (s.flush c answers).lastClip = s.lastClip := by
  unfold Server.flush
  exact ite_lastClip (a := s.log _) rfl rfl

theorem tcpReady_lastClip (ok : Bool) (tls : Option TlsOut) (answers : List SockAnswer) :
    (s.tcpReady c ok tls answers).lastClip = s.lastClip := by
  unfold Server.tcpReady
  refine ite_lastClip (closeConn_lastClip s _) (ite_lastClip ?_ (flush_lastClip _ _))
  split
  · exact closeConn_lastClip (s.modify c.uid fun _ => { c with tcpPending := false }) _
  · rfl

theorem handshake_lastClip (rc : Int) (err : Bytes) (answers : List SockAnswer) :
    (s.handshake c rc err answers).lastClip = s.lastClip := by
  unfold Server.handshake
  refine ite_lastClip ((closeConn_lastClip _ _).trans (ite_lastClip rfl rfl)) (ite_lastClip rfl ?_)
  exact flush_lastClip (c := { c with tlsHandshaking := false }) _ answers

theorem finishRelayUpgrade_lastClip : (s.finishRelayUpgrade c).lastClip = s.lastClip := by
  unfold Server.finishRelayUpgrade
  split
  · exact ite_lastClip (closeConn_lastClip s _) rfl
  · dsimp only
    refine ite_lastClip (ite_lastClip rfl ((closeConn_lastClip _ _).trans (ite_lastClip rfl rfl)))
      (ite_lastClip rfl rfl)

theorem expire_lastClip (now : Nat) : (s.expire c now io).lastClip = s.lastClip := by
  unfold Server.expire
  exact ite_lastClip rfl (ite_lastClip (ite_lastClip (closeConn_lastClip s _) (ite_lastClip rfl rfl))
    (ite_lastClip (closeConn_lastClip s _) (ite_lastClip (closeConn_lastClip s _) rfl)))

theorem pump_lastClip {t : Server σ} (f : Option Frame) (now : Nat) (schedule : List Nat)
    (h : s.pump cr plat c f now schedule io = some t) : t.lastClip = s.lastClip := by
  unfold Server.pump at h
  split at h
  · rw [← Option.some.inj h]
  · obtain ⟨c', -, rfl⟩ := Option.map_eq_some_iff.mp h
    rfl

theorem reap_lastClip : (s.reap cr plat io).lastClip = s.lastClip := by
  have hdismantle : ∀ (cs : List Conn) (t : Server σ),
      (cs.foldl (fun s c => s.dismantle plat c io) t).lastClip = t.lastClip := by
    intro cs
    induction cs with
    | nil => exact fun t => rfl
    | cons c cs ih =>
        intro t
        refine (ih _).trans ?_
        unfold Server.dismantle
        dsimp only
        exact ite_lastClip (show Server.lastClip (Server.backOff _ _) = _ from ite_lastClip rfl rfl) rfl
  have hnotices : ∀ (ns : List (Bytes × Nat)) (t : Server σ), (ns.foldl (fun s n =>
      s.notice cr (n.1 ++ ascii " disconnected") none (io.mask (n.2 + 1))) t).lastClip = t.lastClip := by
    intro ns
    induction ns with
    | nil => exact fun t => rfl
    | cons n ns ih => exact fun t => ih _
  unfold Server.reap Server.announceLeft
  exact ite_lastClip (hdismantle _ s) ((hnotices _ _).trans (hdismantle _ s))

end Kept

section Exchanged

variable {σ : Type} (cr : Crypto) (plat : Platform σ) {s : Server σ} {c : Conn} {io : Io}

-- The text of a well-formed CLIPBOARD message of a viewer with control.
def Conn.clipboardIn (c : Conn) : Option Bytes :=
  if c.live ∧ !c.viewOnly then
    (c.messageIn cr).bind fun m =>
      if m.1 = RD_C_CLIPBOARD then (rdGetBlob m.2).1.filter fun text => text.length ≤ RD_MAX_CLIPBOARD else none
  else none

-- What poll_clipboard broadcasts.
def Server.pollText (s : Server σ) (now : Nat) : Option Bytes :=
  if now < s.nextClipPollUs then none
  else
    let (cc, os) := plat.clipboard.changeCount s.os
    if cc = s.clipCount then none
    else (plat.clipboard.getText os).1.filter fun text => text ≠ s.lastClip ∧ text.length ≤ RD_MAX_CLIPBOARD

-- The text that a step exchanges with the viewers, in either direction.
def Server.exchanged (s : Server σ) : ServerEvent σ → Option Bytes
  | .message uid _ => (s.find uid).bind fun c => c.clipboardIn cr
  | .pollClipboard now _ => s.pollText plat now
  | _ => none

def Server.sents (s : Server σ) : List (Nat × List Bytes) := s.conns.map fun c => (c.uid, c.sent)

-- A clipboard text that reaches every viewer with control but one.
def Server.told (s : Server σ) (skip : Option Nat) (text : Bytes) : List (Nat × List Bytes) :=
  s.conns.map fun c =>
    (c.uid, if some c.uid ≠ skip ∧ c.live ∧ !c.viewOnly then c.sent ++ [clipboardMsg text] else c.sent)

theorem sendMsg_sent (c : Conn) (halive : c.dead = false) (msg mask : Bytes) :
    (c.sendMsg cr msg mask).uid = c.uid ∧ (c.sendMsg cr msg mask).sent = c.sent ++ [msg] := by
  obtain ⟨out, sendCtr, h⟩ := Conn.sendMsg_alive cr c msg mask halive
  rw [h]
  exact ⟨rfl, rfl⟩

theorem broadcast_told (t : Server σ) (text : Bytes) (skip : Option Nat) (mask : Nat → Bytes) :
    (t.broadcast cr (clipboardMsg text) skip true mask).sents = t.told skip text := by
  unfold Server.sents Server.told Server.broadcast
  rw [List.map_map]
  refine List.map_congr_left fun c _ => ?_
  dsimp only [Function.comp_apply]
  by_cases h : some c.uid ≠ skip ∧ c.live = true ∧ (!c.viewOnly) = true
  · obtain ⟨huid, hsent⟩ := sendMsg_sent cr c (live_active h.2.1).2 (clipboardMsg text) (mask c.uid)
    rw [if_pos h, if_pos (by simpa using h), huid, hsent]
  · rw [if_neg h, if_neg (by simpa using h)]

theorem pollClipboard_told (now : Nat) :
    (s.pollClipboard cr plat now io).lastClip = (s.pollText plat now).getD s.lastClip ∧
      (s.pollClipboard cr plat now io).sents = ((s.pollText plat now).map (s.told none)).getD s.sents := by
  unfold Server.pollClipboard Server.pollText
  by_cases hearly : now < s.nextClipPollUs
  · rw [if_pos hearly, if_pos hearly]
    exact ⟨rfl, rfl⟩
  rw [if_neg hearly, if_neg hearly]
  dsimp only
  by_cases hsame : (plat.clipboard.changeCount s.os).1 = s.clipCount
  · rw [if_pos hsame, if_pos hsame]
    exact ⟨rfl, rfl⟩
  rw [if_neg hsame, if_neg hsame]
  generalize plat.clipboard.getText (plat.clipboard.changeCount s.os).2 = found
  obtain ⟨text, os⟩ := found
  cases text with
  | none => exact ⟨rfl, rfl⟩
  | some text =>
      dsimp only
      rw [Option.filter_some]
      by_cases hnew : text = s.lastClip ∨ text.length > RD_MAX_CLIPBOARD
      · rw [if_pos hnew, if_neg (by simpa [← or_iff_not_imp_left] using hnew)]
        exact ⟨rfl, rfl⟩
      · rw [if_neg hnew, if_pos (by simpa [not_or] using hnew)]
        exact ⟨rfl, broadcast_told cr { s with
          nextClipPollUs := add64 now 400000, clipCount := _, os := os, lastClip := text }
          text none (io.mask 0)⟩

theorem clipboard_lastClip {t : Server σ} {r : Reader} : (t.clipboard cr plat c r io).lastClip =
    if c.viewOnly = true then t.lastClip
    else ((rdGetBlob r).1.filter fun text => text.length ≤ RD_MAX_CLIPBOARD).getD t.lastClip := by
  unfold Server.clipboard
  generalize rdGetBlob r = b
  obtain ⟨text, r⟩ := b
  cases text with
  | none => exact (ite_self _).symm
  | some text =>
      dsimp only
      rw [Option.filter_some]
      by_cases hvo : c.viewOnly = true
      · rw [if_pos (.inl hvo), if_pos hvo]
      rw [if_neg hvo]
      by_cases hlong : text.length > RD_MAX_CLIPBOARD
      · rw [if_pos (.inr hlong), if_neg (by simpa using hlong)]
        rfl
      rw [if_neg (not_or.mpr ⟨hvo, hlong⟩ : ¬ (c.viewOnly = true ∨ text.length > RD_MAX_CLIPBOARD))]
      have hfits : decide (text.length ≤ RD_MAX_CLIPBOARD) = true := by simpa using hlong
      by_cases hsame : text = t.lastClip
      · rw [if_pos hsame, if_pos hfits]
        exact hsame.symm
      · rw [if_neg hsame, if_pos hfits]
        rfl

theorem wsRound_lastClip (hrow : ∀ d ∈ s.conns, d.uid = c.uid → d = c) :
    (s.wsRound cr plat c io).1.lastClip = (c.clipboardIn cr).getD s.lastClip := by
  by_cases hserved : ∃ type r, c.live = true ∧ c.messageIn cr = some (type, r)
  · obtain ⟨type, r, hlive, hmsg⟩ := hserved
    obtain ⟨c₂, hread, hround⟩ := @wsRound_session _ _ plat s _ io hlive _ _ hmsg
    obtain ⟨ws, inn, recvCtr, rfl, -⟩ := hread
    unfold Conn.clipboardIn
    rw [hround, hmsg, Option.bind_some]
    dsimp only
    by_cases htype : type = RD_C_CLIPBOARD
    · rw [if_pos htype, htype]
      refine (clipboard_lastClip cr plat).trans ?_
      by_cases hvo : c.viewOnly = true
      · rw [if_pos hvo, if_neg (by simp [hvo])]
        rfl
      · rw [if_neg hvo, if_pos (by simp [hlive, hvo])]
        rfl
    · rw [if_neg htype, handleSessionMessage_lastClip cr plat _ r io type htype, ite_self]
      rfl
  · have hnone : c.clipboardIn cr = none := by
      unfold Conn.clipboardIn
      split
      · next h =>
          cases hmsg : c.messageIn cr with
          | none => rfl
          | some m => exact absurd ⟨m.1, m.2, h.1, hmsg⟩ hserved
      · rfl
    rw [hnone]
    have hround := wsRound_cases cr plat io hrow
    generalize (s.wsRound cr plat c io).1 = t at hround ⊢
    cases hround with
    | closed c₂ _ _ _ reason => exact closeConn_lastClip _ _
    | opened c₂ _ _ m => exact relayOpen_lastClip cr _ io m
    | session c₂ _ alive state type r message =>
        exact absurd ⟨type, r, by simp [Conn.live, state, alive], message⟩ hserved
    | _ => rfl

-- The last text exchanged is the one remembered.
theorem apply_lastClip (htidy : s.Tidy) {e : ServerEvent σ} {t : Server σ} (h : e.apply cr plat s = some t) :
    t.lastClip = (s.exchanged cr plat e).getD s.lastClip := by
  have honConn : ∀ uid (f : Conn → Server σ), (∀ c ∈ s.conns, (f c).lastClip = s.lastClip) →
      (s.onConn uid f).lastClip = s.lastClip := by
    intro uid f hf
    unfold Server.onConn
    cases hfind : s.find uid with
    | none => rfl
    | some c => exact hf c (find_spec hfind).1
  unfold ServerEvent.apply at h
  split at h
  · cases h
  cases e with
  | message uid io =>
      obtain rfl := Option.some.inj h
      unfold Server.onConn Server.exchanged
      dsimp only
      cases hfind : s.find uid with
      | none => rfl
      | some c =>
          obtain ⟨hc, rfl⟩ := find_spec hfind
          dsimp only [Option.bind_some]
          by_cases hup : c.upgraded = true
          · rw [if_pos hup]
            exact wsRound_lastClip cr plat (htidy.row hc)
          · have hdead : c.clipboardIn cr = none := by
              unfold Conn.clipboardIn
              rw [if_neg fun h => hup (by simp [Conn.upgraded, (live_active h.1).1])]
            rw [if_neg hup, hdead]
            rfl
  | pollClipboard now io =>
      obtain rfl := Option.some.inj h
      exact (pollClipboard_told cr plat now).1
  | pump uid f now schedule io =>
      dsimp only at h
      split at h
      · rw [← Option.some.inj h]
        rfl
      · exact pump_lastClip cr plat s io f now schedule h
  | world os => rw [← Option.some.inj h]; rfl
  | consoleRead chunk => rw [← Option.some.inj h]; rfl
  | consoleLine io => rw [← Option.some.inj h]; exact consoleLine_lastClip cr plat s io
  | tcpReady uid ok tls answers =>
      rw [← Option.some.inj h]
      exact honConn _ _ fun c _ => ite_lastClip (tcpReady_lastClip s ok tls answers) rfl
  | handshake uid rc err answers =>
      rw [← Option.some.inj h]
      exact honConn _ _ fun c _ => ite_lastClip (handshake_lastClip s rc err answers) rfl
  | received uid data now =>
      rw [← Option.some.inj h]
      exact honConn _ _ fun c _ => ite_lastClip rfl rfl
  | recvFailed uid data =>
      rw [← Option.some.inj h]
      exact honConn _ _ fun c _ => closeConn_lastClip _ _
  | http uid =>
      rw [← Option.some.inj h]
      exact honConn _ _ fun c _ => ite_lastClip rfl rfl
  | relayUpgrade uid =>
      rw [← Option.some.inj h]
      exact honConn _ _ fun c _ => ite_lastClip (finishRelayUpgrade_lastClip s) rfl
  | staleRc uid =>
      rw [← Option.some.inj h]
      exact honConn _ _ fun c _ => ite_lastClip (closeConn_lastClip s _) rfl
  | flush uid answers =>
      rw [← Option.some.inj h]
      exact honConn _ _ fun c _ => flush_lastClip s answers
  | accept addr now => rw [← Option.some.inj h]; exact ite_lastClip rfl rfl
  | expire uid now io =>
      rw [← Option.some.inj h]
      exact honConn _ _ fun c _ => expire_lastClip s io now
  | reap io => rw [← Option.some.inj h]; exact reap_lastClip cr plat s io
  | maintainRelay now io =>
      rw [← Option.some.inj h]
      exact ite_lastClip rfl (openRelayConn_lastClip cr s io _ _ _)

-- What the messages of a connection are to others stays when it is read.
theorem Read.told {c₂ : Conn} (hread : Read c c₂) (hrow : ∀ d ∈ s.conns, d.uid = c.uid → d = c) (skip : Option Nat)
    (text : Bytes) : (s.modify c.uid fun _ => c₂).told skip text = s.told skip text ∧
      (s.modify c.uid fun _ => c₂).sents = s.sents := by
  obtain ⟨ws, inn, recvCtr, rfl, -⟩ := hread
  unfold Server.told Server.sents Server.modify
  rw [List.map_map, List.map_map]
  constructor
  · refine List.map_congr_left fun d hd => ?_
    dsimp only [Function.comp_apply]
    split
    · next huid =>
        rw [hrow d hd huid]
        rfl
    · rfl
  · refine List.map_congr_left fun d hd => ?_
    dsimp only [Function.comp_apply]
    split
    · next huid => rw [hrow d hd huid]
    · rfl

theorem message_clipboard (htidy : s.Tidy) (hc : c ∈ s.conns) {text : Bytes} (htext : c.clipboardIn cr = some text)
    {t : Server σ} (h : (ServerEvent.message c.uid io).apply cr plat s = some t) :
    if text = s.lastClip then t.os = s.os ∧ t.sents = s.sents
    else t.os = (plat.clipboard.changeCount (plat.clipboard.setText s.os text)).2 ∧
      t.sents = s.told (some c.uid) text := by
  unfold Conn.clipboardIn at htext
  split at htext
  case isFalse => cases htext
  next hcontrol =>
  obtain ⟨⟨type, r⟩, hmsg, htext⟩ := Option.bind_eq_some_iff.mp htext
  dsimp only at htext
  split at htext
  case isFalse => cases htext
  next htype =>
  obtain ⟨hblob, hfits⟩ := Option.filter_eq_some_iff.mp htext
  unfold ServerEvent.apply at h
  split at h
  · cases h
  obtain rfl := Option.some.inj h
  unfold Server.onConn
  rw [show s.find c.uid = some c from find_row Conn.uid htidy.distinct hc]
  dsimp only
  have hup : c.upgraded = true := by simp [Conn.upgraded, (live_active hcontrol.1).1]
  rw [if_pos hup]
  obtain ⟨c₂, hread, hround⟩ := @wsRound_session _ _ plat s _ io hcontrol.1 _ _ hmsg
  obtain ⟨htold, hsents⟩ := hread.told (htidy.row hc) (some c.uid) text
  have hrights : c₂.viewOnly = c.viewOnly := by
    obtain ⟨ws, inn, recvCtr, rfl, -⟩ := hread
    rfl
  rw [hround, htype]
  generalize hs₁ : s.modify c.uid (fun _ => c₂) = s₁ at htold hsents ⊢
  have hlast : s₁.lastClip = s.lastClip := by rw [← hs₁]; rfl
  have hos : s₁.os = s.os := by rw [← hs₁]; rfl
  have hserve : s₁.handleSessionMessage cr plat c₂ r io RD_C_CLIPBOARD = s₁.clipboard cr plat c₂ r io := rfl
  rw [hserve]
  unfold Server.clipboard
  generalize rdGetBlob r = b at hblob
  obtain ⟨blob, r'⟩ := b
  dsimp only at hblob
  subst hblob
  dsimp only
  rw [if_neg (not_or.mpr ⟨by rw [hrights]; simpa using hcontrol.2, by simpa using hfits⟩), hlast]
  by_cases hsame : text = s.lastClip
  · rw [if_pos hsame, if_pos hsame]
    exact ⟨hos, hsents⟩
  · rw [if_neg hsame, if_neg hsame, hread.eqs.1]
    refine ⟨by rw [← hos]; rfl, (broadcast_told cr _ text (some c.uid) (io.mask 0)).trans htold⟩

end Exchanged

-- What is assumed of the platform: its clipboard holds a text or something else, and
-- holds what was set.
structure TextClipboard {σ : Type} (plat : Platform σ) where
  text : σ → Option Bytes
  changeCount_text : ∀ os, text (plat.clipboard.changeCount os).2 = text os
  getText_text : ∀ os, (plat.clipboard.getText os).1 = text os
  setText_text : ∀ os t, text (plat.clipboard.setText os t) = some t

section Runs

variable {σ : Type} (cr : Crypto) (plat : Platform σ) (clip : TextClipboard plat)
  {past : List (Server σ × ServerEvent σ)} {s : Server σ}

-- A run from a given state on.
def runsFrom (s : Server σ) : System (Server σ) (ServerEvent σ) := ⟨(· = s), (serverRuns cr plat).step⟩

-- What the host owes a text from a viewer: to set it, to tell the others with control,
-- and not to tell it again as if it were new.
structure Applied (s t : Server σ) (c : Conn) (text : Bytes) : Prop where
  set : clip.text t.os = some text
  forwarded : text ≠ s.lastClip → t.sents = s.told (some c.uid) text
  quiet : ∀ more v, Run (runsFrom cr plat t) more v → (∀ p ∈ more, p.1.exchanged cr plat p.2 = none) →
    ∀ now, v.pollText plat now ≠ some text

theorem pollText_new {text : Bytes} {now : Nat} (h : s.pollText plat now = some text) : text ≠ s.lastClip := by
  unfold Server.pollText at h
  split at h
  · cases h
  · dsimp only at h
    split at h
    · cases h
    · have hnew := (Option.filter_eq_some_iff.mp h).2
      exact (of_decide_eq_true hnew).1

theorem lastClip_kept {t v : Server σ} (htidy : t.Tidy) {more : List (Server σ × ServerEvent σ)}
    (run : Run (runsFrom cr plat t) more v) (hquiet : ∀ p ∈ more, p.1.exchanged cr plat p.2 = none) :
    v.lastClip = t.lastClip := by
  refine (run.guarded (fun s e => s.exchanged cr plat e = none) (fun _ s => s.Tidy ∧
    s.lastClip = t.lastClip) ?_ ?_ hquiet).2
  · rintro _ rfl
    exact ⟨htidy, rfl⟩
  · rintro past s e u ⟨hs, hlast⟩ hnone hstep
    exact ⟨(apply_steps cr plat hs hstep).tidy cr hs, by rw [apply_lastClip cr plat hs hstep, hnone]; exact hlast⟩

-- A viewer's text is applied unless the host has it for the last one while the
-- clipboard holds something else.
theorem viewer_clipboard (run : Run (serverRuns cr plat) past s) :
    ∀ c ∈ s.conns, ∀ text, c.clipboardIn cr = some text →
      ∀ io t, (ServerEvent.message c.uid io).apply cr plat s = some t →
      (Applied cr plat clip s t c text ↔ text ≠ s.lastClip ∨ clip.text s.os = some text) := by
  intro c hc text htext io t h
  have htidy := tidy_run cr plat run
  have hstep := message_clipboard cr plat htidy hc htext h
  have hlast : t.lastClip = text := by
    rw [apply_lastClip cr plat htidy h, Server.exchanged,
      show s.find c.uid = some c from find_row Conn.uid htidy.distinct hc, Option.bind_some, htext]
    rfl
  have hquiet : ∀ more v, Run (runsFrom cr plat t) more v → (∀ p ∈ more, p.1.exchanged cr plat p.2 = none) →
      ∀ now, v.pollText plat now ≠ some text := fun more v hrun hnone now hpoll =>
    pollText_new plat hpoll
      ((lastClip_kept cr plat ((apply_steps cr plat htidy h).tidy cr htidy) hrun hnone).trans hlast).symm
  by_cases hsame : text = s.lastClip
  · rw [if_pos hsame] at hstep
    rw [or_iff_right (not_not.mpr hsame), ← hstep.1]
    exact ⟨fun happlied => happlied.set, fun hset => ⟨hset, fun hne => absurd hsame hne, hquiet⟩⟩
  · rw [if_neg hsame] at hstep
    refine iff_of_true ⟨?_, fun _ => hstep.2, hquiet⟩ (.inl hsame)
    rw [hstep.1, clip.changeCount_text, clip.setText_text]

end Runs

-- A platform of which only the clipboard matters.
structure Pasteboard where
  count : Nat
  text : Option Bytes

def pastePlatform : Platform Pasteboard where
  capturer :=
    { displays := fun p => ([⟨ascii "Main", 2, 1⟩], p)
      start := fun p _ _ => (none, p)
      latest := fun p => (none, p)
      currentDisplay := fun _ => 0
      supportsHighResolution := fun _ => false
      highResolution := fun _ => false
      setHighResolution := fun p _ => p }
  input :=
    { pointer := fun p _ _ _ _ _ => p
      key := fun p _ _ => p
      releaseAll := fun p => p }
  clipboard :=
    { changeCount := fun p => (p.count, p)
      getText := fun p => (p.text, p)
      setText := fun p text => ⟨p.count + 1, some text⟩ }
  files :=
    { fileExists := fun _ _ => false
      makeDirs := fun p _ => p
      readFile := fun _ _ => .absent
      fopen := fun p _ => (none, p)
      fwrite := fun p _ _ => (0, p)
      fclose := fun p _ => p
      remove := fun p _ => p }
  osName := ascii "macOS"

def pasteboard : TextClipboard pastePlatform := ⟨Pasteboard.text, fun _ => rfl, fun _ => rfl, fun _ _ => rfl⟩

-- The text a is on the clipboard when the host starts; Ann logs in, an image is copied
-- over it, and Ann sends a text.
def pasteEvents (text : Bytes) : List (ServerEvent Pasteboard) :=
  loginEvents 0 "Ann" ++
    [.world ⟨1, none⟩,
      .received 0 (clientFrame RD_WS_BINARY (rdAeadSeal reference (putU8 RD_C_CLIPBOARD ++ putBlob text) []
        deskKey (ctrNonce 1))) 0]

def pasteHost (text : Bytes) : Option (Server Pasteboard) :=
  (Server.started pastePlatform (deskConfig false) 0 ⟨0, some (ascii "a")⟩).bind fun s =>
    (pasteEvents text).foldlM (fun s e => e.apply reference pastePlatform s) s

-- The message arrives while the host remembers a.
def pasteArrives (text : Bytes) : Bool :=
  (pasteHost text).any fun s => s.thrown = false ∧ s.lastClip = ascii "a" ∧ s.os.text = none ∧
    s.conns.map (fun c => c.clipboardIn reference) = [some text]

theorem pasteArrives_facts : pasteArrives (ascii "a") = true ∧ pasteArrives (ascii "b") = true := by
  unfold pasteArrives pasteHost pasteEvents loginEvents sealedEvents
  rw [← rehearsed_eq]
  decide +kernel

theorem pasteHost_step {text : Bytes} (h : pasteArrives text = true) :
    ∃ past s c t, Run (serverRuns reference pastePlatform) past s ∧ c ∈ s.conns ∧
      c.clipboardIn reference = some text ∧
      (ServerEvent.message c.uid deskIo).apply reference pastePlatform s = some t ∧ s.lastClip = ascii "a" ∧
      pasteboard.text s.os = none := by
  unfold pasteArrives at h
  obtain ⟨s, hs, hfacts⟩ := (Option.any_eq_true _ _).mp h
  obtain ⟨hthrown, hlast, htext, hconns⟩ := of_decide_eq_true hfacts
  obtain ⟨c, hc, hin⟩ := List.map_eq_singleton_iff.mp hconns
  obtain ⟨s₀, h₀, hs⟩ := Option.bind_eq_some_iff.mp hs
  obtain ⟨past, hrun, -⟩ := run_foldlM _ (fun _ _ => True) (fun _ _ _ h => ⟨h, trivial⟩) _
    (.start (S := serverRuns reference pastePlatform) ⟨deskConfig false, 0, ⟨0, some (ascii "a")⟩, h₀⟩) hs
  refine ⟨_, s, c, s.onConn c.uid fun c =>
    if c.upgraded then (s.wsRound reference pastePlatform c deskIo).1 else s, hrun,
    by simp [hc], hin, ?_, hlast, htext⟩
  unfold ServerEvent.apply
  rw [if_neg (by simp [hthrown])]

-- Another text than the last one is applied.
theorem viewer_clipboard_fresh : ∃ past s c t, Run (serverRuns reference pastePlatform) past s ∧ c ∈ s.conns ∧
    (ServerEvent.message c.uid deskIo).apply reference pastePlatform s = some t ∧
    Applied reference pastePlatform pasteboard s t c (ascii "b") := by
  obtain ⟨past, s, c, t, hrun, hc, hin, ht, hlast, -⟩ := pasteHost_step pasteArrives_facts.2
  refine ⟨past, s, c, t, hrun, hc, ht, ?_⟩
  refine (viewer_clipboard reference pastePlatform pasteboard hrun c hc (ascii "b") hin deskIo t ht).mpr (.inl ?_)
  rw [hlast]
  decide

-- The text from before is not, although an image is on the clipboard now.
theorem viewer_clipboard_dropped : ¬ ∀ past s, Run (serverRuns reference pastePlatform) past s →
    ∀ c ∈ s.conns, ∀ text, c.clipboardIn reference = some text → ∀ io t,
      (ServerEvent.message c.uid io).apply reference pastePlatform s = some t →
      Applied reference pastePlatform pasteboard s t c text := by
  intro halways
  obtain ⟨past, s, c, t, hrun, hc, hin, ht, hlast, htext⟩ := pasteHost_step pasteArrives_facts.1
  have hset := (halways past s hrun c hc (ascii "a") hin deskIo t ht).set
  have hkept := message_clipboard reference pastePlatform (tidy_run reference pastePlatform hrun) hc hin ht
  rw [if_pos hlast.symm] at hkept
  rw [hkept.1, htext] at hset
  cases hset

end TetherDesk.Host
