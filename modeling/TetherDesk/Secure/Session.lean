import TetherDesk.Secure.Reference
import TetherDesk.Reader.Theorems
import TetherDesk.Lib.Transition

namespace TetherDesk.Secure

open TetherDesk.Lib

structure Sealing where
  key : Bytes
  nonce : Bytes
  msg : Bytes
  sealed : Bytes
  deriving DecidableEq

-- The two ends of one session on an untrusted network, with what each has sealed
-- and accepted so far and every sealing made under their keys.
structure Session where
  host : Channel
  viewer : Channel
  hostSealed : List Bytes
  viewerSealed : List Bytes
  hostAccepted : List Bytes
  viewerAccepted : List Bytes
  sealings : List Sealing
  deriving DecidableEq

-- The network hands over any bytes it likes; out is the buffer of the receiver.
inductive SessionEvent
  | hostSeals (msg : Bytes)
  | viewerSeals (msg : Bytes)
  | toHost (input out : Bytes)
  | toViewer (input out : Bytes)
  deriving DecidableEq

variable (cr : Crypto)

def Session.start (dh1 dh2 th : Bytes) : Session :=
  ⟨rdHsKeys cr dh1 dh2 th true, rdHsKeys cr dh1 dh2 th false, [], [], [], [], []⟩

def sealing (ch : Channel) (msg : Bytes) : Sealing :=
  ⟨ch.sendKey, ctrNonce ch.sendCtr, msg, (rdChannelSeal cr ch msg).1⟩

-- The plaintext an open accepts.
def accepted (ch : Channel) (input out : Bytes) : List Bytes :=
  let (rc, out, _) := rdChannelOpen cr ch input out
  if rc < 0 then [] else [out.take rc.toNat]

def sessionStep (s : Session) : SessionEvent → Session
  | .hostSeals msg =>
      { s with
        host := (rdChannelSeal cr s.host msg).2
        hostSealed := s.hostSealed ++ [msg]
        sealings := s.sealings ++ [sealing cr s.host msg] }
  | .viewerSeals msg =>
      { s with
        viewer := (rdChannelSeal cr s.viewer msg).2
        viewerSealed := s.viewerSealed ++ [msg]
        sealings := s.sealings ++ [sealing cr s.viewer msg] }
  | .toHost input out =>
      { s with
        host := (rdChannelOpen cr s.host input out).2.2
        hostAccepted := s.hostAccepted ++ accepted cr s.host input out }
  | .toViewer input out =>
      { s with
        viewer := (rdChannelOpen cr s.viewer input out).2.2
        viewerAccepted := s.viewerAccepted ++ accepted cr s.viewer input out }

def network (dh1 dh2 th : Bytes) : Transition.System Session SessionEvent :=
  Transition.ofFunction (· = Session.start cr dh1 dh2 th) (sessionStep cr)

-- rd_aead_open under a key and nonce accepts nothing but an earlier sealing under
-- them, and returns its plaintext.
def idealOpen (sealings : List Sealing) (ch : Channel) (input out : Bytes) : Prop :=
  (rdAeadOpen cr out input [] ch.recvKey (ctrNonce ch.recvCtr)).1 = 0 →
    ∃ x ∈ sealings, x.key = ch.recvKey ∧ x.nonce = ctrNonce ch.recvCtr ∧ x.sealed = input ∧
      (rdAeadOpen cr out input [] ch.recvKey (ctrNonce ch.recvCtr)).2.take (input.length - RD_TAG_LEN) = x.msg

def IdealAead (s : Session) : SessionEvent → Prop
  | .toHost input out => idealOpen cr s.sealings s.host input out
  | .toViewer input out => idealOpen cr s.sealings s.viewer input out
  | _ => True

instance (sealings : List Sealing) (ch : Channel) (input out : Bytes) :
    Decidable (idealOpen cr sealings ch input out) := inferInstanceAs (Decidable (_ → _))

instance (s : Session) : DecidablePred (IdealAead cr s)
  | .toHost _ _ => inferInstanceAs (Decidable (idealOpen ..))
  | .toViewer _ _ => inferInstanceAs (Decidable (idealOpen ..))
  | .hostSeals _ | .viewerSeals _ => .isTrue trivial

theorem ctrNonce_injective {a b : Nat} (ha : a < 2 ^ 64) (hb : b < 2 ^ 64) (h : ctrNonce a = ctrNonce b) :
    a = b :=
  le64_injective ha hb (List.append_cancel_left h)

theorem rdAeadOpen_rejected (out input ad key nonce : Bytes)
    (h : (rdAeadOpen cr out input ad key nonce).1 ≠ 0) : (rdAeadOpen cr out input ad key nonce).2 = out := by
  unfold rdAeadOpen at h ⊢
  dsimp only at h ⊢
  split_ifs at h ⊢
  · rfl
  · rfl
  · exact absurd rfl h

-- A rejected input leaves the channel and the caller's buffer as they were.
theorem rdChannelOpen_rejected (ch : Channel) (input out : Bytes) (h : (rdChannelOpen cr ch input out).1 < 0) :
    (rdChannelOpen cr ch input out).2 = (out, ch) := by
  unfold rdChannelOpen at h ⊢
  by_cases hshort : input.length < RD_TAG_LEN
  · simp [hshort]
  · simp only [hshort, if_false] at h ⊢
    by_cases hrc : (rdAeadOpen cr out input [] ch.recvKey (ctrNonce ch.recvCtr)).1 = 0
    · simp only [hrc, ne_eq, not_true_eq_false, if_false] at h
      omega
    · rw [if_pos hrc, rdAeadOpen_rejected cr _ _ _ _ _ hrc]

theorem rdChannelOpen_accepted (ch : Channel) (input out : Bytes) (h : ¬ (rdChannelOpen cr ch input out).1 < 0) :
    (rdAeadOpen cr out input [] ch.recvKey (ctrNonce ch.recvCtr)).1 = 0 ∧
    accepted cr ch input out =
      [(rdAeadOpen cr out input [] ch.recvKey (ctrNonce ch.recvCtr)).2.take (input.length - RD_TAG_LEN)] ∧
    (rdChannelOpen cr ch input out).2.2 = { ch with recvCtr := (ch.recvCtr + 1) % 2 ^ 64 } := by
  unfold accepted
  unfold rdChannelOpen at h ⊢
  by_cases hshort : input.length < RD_TAG_LEN
  · simp [hshort] at h
  · simp only [hshort, if_false] at h ⊢
    by_cases hrc : (rdAeadOpen cr out input [] ch.recvKey (ctrNonce ch.recvCtr)).1 = 0
    · simp only [hrc, ne_eq, not_true_eq_false, if_false] at h ⊢
      refine ⟨trivial, ?_, trivial⟩
      rw [if_neg h]
      congr 2
      omega
    · simp [hrc] at h

-- Opening does not touch the sending side.
theorem rdChannelOpen_send (ch : Channel) (input out : Bytes) :
    (rdChannelOpen cr ch input out).2.2.sendKey = ch.sendKey ∧
    (rdChannelOpen cr ch input out).2.2.sendCtr = ch.sendCtr := by
  unfold rdChannelOpen
  dsimp only
  split_ifs <;> exact ⟨rfl, rfl⟩

-- One direction: a sender that has sealed `msgs` under key and a receiver that has
-- accepted `got`.
structure Direction (key : Bytes) (sealings : List Sealing) (sender receiver : Channel)
    (msgs got : List Bytes) : Prop where
  send_key : sender.sendKey = key
  recv_key : receiver.recvKey = key
  send_ctr : sender.sendCtr = msgs.length
  recv_ctr : receiver.recvCtr = got.length
  logged : ∀ x ∈ sealings, x.key = key → ∃ i, ∃ h : i < msgs.length, x.nonce = ctrNonce i ∧ x.msg = msgs[i]
  in_order : got <+: msgs

theorem prefix_concat {α : Type*} {got msgs : List α} (h : got <+: msgs) (hlt : got.length < msgs.length) :
    got ++ [msgs[got.length]] <+: msgs := by
  obtain ⟨rest, rfl⟩ := h
  cases rest with
  | nil => simp at hlt
  | cons m rest => exact ⟨rest, by simp⟩

section Directions

variable {cr} {key : Bytes} {sealings : List Sealing} {sender receiver : Channel} {msgs got : List Bytes}

theorem Direction.sealed (h : Direction key sealings sender receiver msgs got) (msg : Bytes)
    (hcount : msgs.length + 1 < 2 ^ 64) :
    Direction key (sealings ++ [sealing cr sender msg]) (rdChannelSeal cr sender msg).2 receiver
      (msgs ++ [msg]) got where
  send_key := h.send_key
  recv_key := h.recv_key
  send_ctr := by
    simp only [rdChannelSeal, h.send_ctr, List.length_append, List.length_singleton]
    omega
  recv_ctr := h.recv_ctr
  logged := by
    intro x hx hkey
    rcases List.mem_append.mp hx with hx | hx
    · obtain ⟨i, hi, hnonce, hmsg⟩ := h.logged x hx hkey
      refine ⟨i, by simp; omega, hnonce, ?_⟩
      rw [hmsg, List.getElem_append_left hi]
    · rw [List.mem_singleton] at hx
      subst hx
      exact ⟨msgs.length, by simp, by simp [sealing, h.send_ctr], by simp [sealing]⟩
  in_order := h.in_order.trans (List.prefix_append _ _)

-- A sealing of the other direction, and what the two ends do in it.
theorem Direction.other (h : Direction key sealings sender receiver msgs got) {x : Sealing}
    {sender' receiver' : Channel} (hx : x.key ≠ key) (hs : sender'.sendKey = sender.sendKey)
    (hc : sender'.sendCtr = sender.sendCtr) (hr : receiver'.recvKey = receiver.recvKey)
    (hd : receiver'.recvCtr = receiver.recvCtr) :
    Direction key (sealings ++ [x]) sender' receiver' msgs got where
  send_key := hs.trans h.send_key
  recv_key := hr.trans h.recv_key
  send_ctr := hc.trans h.send_ctr
  recv_ctr := hd.trans h.recv_ctr
  logged := by
    intro y hy hkey
    rcases List.mem_append.mp hy with hy | hy
    · exact h.logged y hy hkey
    · rw [List.mem_singleton] at hy
      exact absurd (hy ▸ hkey) hx
  in_order := h.in_order

theorem Direction.congr (h : Direction key sealings sender receiver msgs got) {sender' receiver' : Channel}
    (hs : sender'.sendKey = sender.sendKey) (hc : sender'.sendCtr = sender.sendCtr)
    (hr : receiver'.recvKey = receiver.recvKey) (hd : receiver'.recvCtr = receiver.recvCtr) :
    Direction key sealings sender' receiver' msgs got :=
  ⟨hs.trans h.send_key, hr.trans h.recv_key, hc.trans h.send_ctr, hd.trans h.recv_ctr, h.logged, h.in_order⟩

-- Whatever bytes the receiver is handed, it accepts at most the next message.
theorem Direction.opened (h : Direction key sealings sender receiver msgs got) (input out : Bytes)
    (hcount : msgs.length < 2 ^ 64) (hideal : idealOpen cr sealings receiver input out) :
    Direction key sealings sender (rdChannelOpen cr receiver input out).2.2 msgs
      (got ++ accepted cr receiver input out) := by
  by_cases hrc : (rdChannelOpen cr receiver input out).1 < 0
  · have hnone : accepted cr receiver input out = [] := by simp [accepted, hrc]
    rw [rdChannelOpen_rejected cr receiver input out hrc, hnone, List.append_nil]
    exact h
  · obtain ⟨hopen, hacc, hch⟩ := rdChannelOpen_accepted cr receiver input out hrc
    obtain ⟨x, hx, hkey, hnonce, -, hmsg⟩ := hideal hopen
    obtain ⟨i, hi, hnonce', hmsg'⟩ := h.logged x hx (hkey.trans h.recv_key)
    have hgot := h.in_order.length_le
    -- the counter in the nonce singles out the next message
    have hnext : got.length = i := by
      rw [hnonce, h.recv_ctr] at hnonce'
      exact ctrNonce_injective (by omega) (by omega) hnonce'
    subst hnext
    rw [hacc, hmsg, hmsg', hch]
    refine ⟨h.send_key, h.recv_key, h.send_ctr, ?_, h.logged, prefix_concat h.in_order hi⟩
    simp only [h.recv_ctr, List.length_append, List.length_singleton]
    omega

end Directions

structure SessionInv (c2s s2c : Bytes) (s : Session) : Prop where
  down : Direction s2c s.sealings s.host s.viewer s.hostSealed s.viewerAccepted
  up : Direction c2s s.sealings s.viewer s.host s.viewerSealed s.hostAccepted
  fresh : (s.sealings.map fun x => (x.key, x.nonce)).Nodup

theorem fresh_concat {key : Bytes} {sealings : List Sealing} {sender receiver : Channel}
    {msgs got : List Bytes} (h : Direction key sealings sender receiver msgs got)
    (hfresh : (sealings.map fun x => (x.key, x.nonce)).Nodup) (msg : Bytes) (hcount : msgs.length < 2 ^ 64) :
    ((sealings ++ [sealing cr sender msg]).map fun x => (x.key, x.nonce)).Nodup := by
  rw [List.map_append, List.map_singleton]
  refine hfresh.append (List.nodup_singleton _) ?_
  rw [List.disjoint_singleton]
  intro hmem
  obtain ⟨x, hx, heq⟩ := List.mem_map.mp hmem
  rw [Prod.mk.injEq] at heq
  obtain ⟨i, hi, hnonce, -⟩ := h.logged x hx (heq.1.trans h.send_key)
  have hsame : ctrNonce i = ctrNonce msgs.length := by
    rw [← hnonce, heq.2, ← h.send_ctr]
    rfl
  have := ctrNonce_injective (by omega) hcount hsame
  omega

def Session.countsFit (s : Session) : Prop :=
  s.hostSealed.length < 2 ^ 64 ∧ s.viewerSealed.length < 2 ^ 64

instance : DecidablePred Session.countsFit := fun _ => inferInstanceAs (Decidable (_ ∧ _))

theorem SessionInv.step {c2s s2c : Bytes} (hkeys : c2s ≠ s2c) {s : Session} (h : SessionInv c2s s2c s)
    (e : SessionEvent) (hideal : IdealAead cr s e) (hfit : (sessionStep cr s e).countsFit) :
    SessionInv c2s s2c (sessionStep cr s e) := by
  cases e with
  | hostSeals msg =>
      have hlen : s.hostSealed.length + 1 < 2 ^ 64 := by simpa [sessionStep] using hfit.1
      have hkey : (sealing cr s.host msg).key ≠ c2s := by
        rw [show (sealing cr s.host msg).key = s2c from h.down.send_key]
        exact hkeys.symm
      exact ⟨h.down.sealed msg hlen, h.up.other hkey rfl rfl rfl rfl,
        fresh_concat cr h.down h.fresh msg (by omega)⟩
  | viewerSeals msg =>
      have hlen : s.viewerSealed.length + 1 < 2 ^ 64 := by simpa [sessionStep] using hfit.2
      have hkey : (sealing cr s.viewer msg).key ≠ s2c := by
        rw [show (sealing cr s.viewer msg).key = c2s from h.up.send_key]
        exact hkeys
      exact ⟨h.down.other hkey rfl rfl rfl rfl, h.up.sealed msg hlen,
        fresh_concat cr h.up h.fresh msg (by omega)⟩
  | toHost input out =>
      obtain ⟨hs, hc⟩ := rdChannelOpen_send cr s.host input out
      exact ⟨h.down.congr hs hc rfl rfl, h.up.opened input out hfit.2 hideal, h.fresh⟩
  | toViewer input out =>
      obtain ⟨hs, hc⟩ := rdChannelOpen_send cr s.viewer input out
      exact ⟨h.down.opened input out hfit.1 hideal, h.up.congr hs hc rfl rfl, h.fresh⟩

theorem sessionStep_grows (s : Session) (e : SessionEvent) (h : (sessionStep cr s e).countsFit) :
    s.countsFit := by
  have hle : ∀ (msgs : List Bytes) (m : Bytes), (msgs ++ [m]).length < 2 ^ 64 → msgs.length < 2 ^ 64 := by
    intro msgs m hm
    rw [List.length_append] at hm
    omega
  cases e with
  | hostSeals msg => exact ⟨hle _ _ h.1, h.2⟩
  | viewerSeals msg => exact ⟨h.1, hle _ _ h.2⟩
  | toHost input out => exact h
  | toViewer input out => exact h

theorem Session.start_inv (dh1 dh2 th : Bytes) :
    SessionInv ((hsOkm cr dh1 dh2 th).take 32) ((hsOkm cr dh1 dh2 th).drop 32) (Session.start cr dh1 dh2 th) :=
  ⟨⟨rfl, rfl, rfl, rfl, by simp [Session.start], List.nil_prefix⟩,
    ⟨rfl, rfl, rfl, rfl, by simp [Session.start], List.nil_prefix⟩, by simp [Session.start]⟩

-- Each end accepts a prefix of what the other sealed, whatever the network does.
-- hkeys says that the two halves HKDF derives are different keys.
theorem session_delivers_prefix (dh1 dh2 th : Bytes)
    (hkeys : (hsOkm cr dh1 dh2 th).take 32 ≠ (hsOkm cr dh1 dh2 th).drop 32)
    {past : List (Session × SessionEvent)} {s : Session}
    (run : Transition.Run (network cr dh1 dh2 th) past s) (hideal : ∀ p ∈ past, IdealAead cr p.1 p.2)
    (hfit : s.countsFit) :
    s.viewerAccepted <+: s.hostSealed ∧ s.hostAccepted <+: s.viewerSealed ∧
    (s.sealings.map fun x => (x.key, x.nonce)).Nodup ∧
    ∀ ch ∈ [s.host, s.viewer], ∀ input out, (rdChannelOpen cr ch input out).1 < 0 →
      (rdChannelOpen cr ch input out).2.1 = out ∧ (rdChannelOpen cr ch input out).2.2.recvCtr = ch.recvCtr := by
  have inv := run.guarded (fun s e => IdealAead cr s e)
    (fun _ s => s.countsFit → SessionInv ((hsOkm cr dh1 dh2 th).take 32) ((hsOkm cr dh1 dh2 th).drop 32) s)
    (by rintro s rfl _; exact Session.start_inv cr dh1 dh2 th)
    (by
      rintro past s e _ ih hideal rfl hfit
      exact (ih (sessionStep_grows cr s e hfit)).step cr hkeys e hideal hfit)
    hideal hfit
  refine ⟨inv.down.in_order, inv.up.in_order, inv.fresh, fun ch _ input out hrc => ?_⟩
  rw [rdChannelOpen_rejected cr ch input out hrc]
  exact ⟨rfl, rfl⟩

section Example

def exampleDh1 : Bytes := List.replicate 32 1
def exampleDh2 : Bytes := List.replicate 32 2
def exampleTh : Bytes := List.replicate 32 3

def exampleC2s : Bytes := putBe 32 0x2ce648d17dca2e2c7df080d983058cb8e5fd362aa7743a87f74e889e3a726f55
def exampleS2c : Bytes := putBe 32 0x32fe3f98bce2b62711fbcc1759bf62be8f0e55b9ff60be0441e55b63877562f8

theorem example_okm : hsOkm reference exampleDh1 exampleDh2 exampleTh = exampleC2s ++ exampleS2c := by
  decide +kernel

def exampleStart : Session :=
  ⟨⟨true, exampleS2c, exampleC2s, 0, 0⟩, ⟨true, exampleC2s, exampleS2c, 0, 0⟩, [], [], [], [], []⟩

theorem example_start : exampleStart = Session.start reference exampleDh1 exampleDh2 exampleTh := by
  simp only [Session.start, rdHsKeys, example_okm]
  decide

-- One message from the viewer, "hi"; the network forges one, delivers it, replays
-- it and reflects it.
def exampleSealed : Bytes := putBe 18 0xe68f01814d0689803425967b3a50d092bb55

def exampleDeliveries : List SessionEvent :=
  [.viewerSeals (ascii "hi"), .toHost (List.replicate 20 0) [9, 9], .toHost exampleSealed [9, 9],
    .toHost exampleSealed [], .toViewer exampleSealed []]

theorem session_delivers_prefix_replayed :
    let s := exampleDeliveries.foldl (sessionStep reference) exampleStart
    s.hostAccepted = [ascii "hi"] ∧ s.viewerAccepted = [] ∧ s.hostAccepted <+: s.viewerSealed := by
  have run := Transition.run_events (· = Session.start reference exampleDh1 exampleDh2 exampleTh)
    (sessionStep reference) example_start exampleDeliveries
  have hkeys : (hsOkm reference exampleDh1 exampleDh2 exampleTh).take 32 ≠
      (hsOkm reference exampleDh1 exampleDh2 exampleTh).drop 32 := by
    rw [example_okm]
    decide
  have h := session_delivers_prefix reference exampleDh1 exampleDh2 exampleTh hkeys run
    (by decide +kernel) (by decide +kernel)
  exact ⟨by decide +kernel, by decide +kernel, h.2.1⟩

end Example

end TetherDesk.Secure
