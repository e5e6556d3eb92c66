import TetherDesk.Delivery.Voice
import TetherDesk.Host.Server.Rehearsal
import TetherDesk.Rendezvous

namespace TetherDesk

open TetherDesk.Client TetherDesk.Host TetherDesk.Net TetherDesk.Secure TetherDesk.Lib.Transition

section Frames

end Frames

section Receiver

variable {accept other : Bytes} (hgraphic : ∀ b ∈ accept, Graphic b) (hlen : accept.length < 64)
include hgraphic hlen

end Receiver

section Channel

variable {cr : Crypto}

-- The first of the sealed messages open as the first of the messages.
theorem openAll_part (hcr : cr.Sound) {ch v : Channel} (hkey : ch.sendKey = v.recvKey)
    (hctr : ch.sendCtr = v.recvCtr)
    (hlen : v.recvKey.length = 32) {secret part : List Bytes} (hpart : part <+: sealAll cr ch secret) :
    ∃ v', openAll cr v part = some (secret.take part.length, v') := by
  have hsealed : part = sealAll cr ch (secret.take part.length) := by
    have hall : sealAll cr ch secret = sealAll cr ch (secret.take part.length) ++
        sealAll cr (sealedChannel cr ch (secret.take part.length)) (secret.drop part.length) := by
      rw [← sealAll_append, List.take_append_drop]
    have hlength : part.length = (sealAll cr ch (secret.take part.length)).length := by
      rw [sealAll_count, List.length_take, ← sealAll_count cr ch secret]
      have := hpart.length_le
      omega
    refine (List.prefix_of_prefix_length_le hpart ?_ hlength.le).eq_of_length hlength
    rw [hall]
    exact List.prefix_append _ _
  have hopen := openAll_sealAll hcr hkey hctr hlen (secret.take part.length)
  rw [← hsealed] at hopen
  exact ⟨_, hopen⟩

end Channel

-- A part of two lists, one behind the other.
theorem prefix_parts {α : Type} {part a b : List α} (h : part <+: a ++ b) :
    part.take a.length = a.take part.length ∧ part.drop a.length = b.take (part.length - a.length) := by
  have hpart := List.prefix_iff_eq_take.mp h
  refine ⟨?_, ?_⟩
  · calc part.take a.length = ((a ++ b).take part.length).take a.length := by rw [← hpart]
      _ = ((a ++ b).take a.length).take part.length := by rw [List.take_take, List.take_take, Nat.min_comm]
      _ = a.take part.length := by rw [List.take_left]
  · calc part.drop a.length = ((a ++ b).take part.length).drop a.length := by rw [← hpart]
      _ = ((a ++ b).drop a.length).take (part.length - a.length) := List.drop_take ..
      _ = b.take (part.length - a.length) := by rw [List.drop_left]

section Said

variable {cr : Crypto} {c : Conn} {key : Bytes} {said : List WsMsg} {plain secret : List Bytes} {ch : Channel}

theorem Said.keys (h : Said cr c key said plain secret ch) (hactive : c.ch.active = true) :
    c.ch.sendKey = ch.sendKey ∧ c.ch.sendCtr = (sealedChannel cr ch secret).sendCtr := by
  have hchannel := h.channel hactive
  rw [sealedChannel_eq] at hchannel
  exact ⟨(congrArg Channel.sendKey hchannel).trans rfl, (congrArg Channel.sendCtr hchannel).trans rfl⟩

-- No message is too long for the viewer, its tag included.
theorem Said.small (hcr : cr.Lengths) (h : Said cr c key said plain secret ch)
    (hkeys : c.ch.active = true → ch.sendKey.length = 32)
    (hfit : ∀ m ∈ c.sent, m.length + RD_TAG_LEN ≤ RD_MAX_SERVER_MSG) :
    ∀ p ∈ binaryOf said, p.length ≤ RD_MAX_SERVER_MSG := by
  rw [h.binary]
  intro p hp
  rcases List.mem_append.mp hp with hp | hp
  · have := hfit p (h.sent ▸ List.mem_append_left _ hp)
    omega
  · cases hactive : c.ch.active with
    | false =>
        rw [h.idle hactive] at hp
        exact absurd hp List.not_mem_nil
    | true =>
        exact sealAll_length hcr (hkeys hactive) (fun m hm => hfit m (h.sent ▸ List.mem_append_right _ hm)) p hp

-- Of a part of what was put out, the sealed messages open.
theorem Said.opens (hcr : cr.Sound) (h : Said cr c key said plain secret ch)
    (hkeys : c.ch.active = true → ch.sendKey.length = 32) {v : Channel}
    (hv : c.ch.active = true → v.recvKey = ch.sendKey ∧ v.recvCtr = 0) {msgs : List Bytes}
    (hheard : msgs <+: plain ++ sealAll cr ch secret) :
    ∃ v', openAll cr v (msgs.drop plain.length) = some (secret.take (msgs.length - plain.length), v') := by
  obtain ⟨-, hdrop⟩ := prefix_parts hheard
  cases hactive : c.ch.active with
  | false =>
      rw [h.idle hactive] at hdrop ⊢
      rw [hdrop, sealAll, List.take_nil]
      exact ⟨v, rfl⟩
  | true =>
      obtain ⟨hkey, hctr⟩ := hv hactive
      have hpart : msgs.drop plain.length <+: sealAll cr ch secret := hdrop ▸ List.take_prefix _ _
      obtain ⟨v', hv'⟩ :=
        openAll_part hcr hkey.symm (h.start.trans hctr.symm) (hkey.symm ▸ hkeys hactive) hpart
      exact ⟨v', by rwa [List.length_drop] at hv'⟩

end Said

section Runs

variable {σ : Type} (plat : Platform σ) {past : List (Server σ × ServerEvent σ)} {s : Server σ} {c : Conn}

end Runs

end TetherDesk
