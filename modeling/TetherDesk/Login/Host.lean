import TetherDesk.Host.Server.Runs
import TetherDesk.Login.Viewer

namespace TetherDesk

open TetherDesk.Client TetherDesk.Host TetherDesk.Secure TetherDesk.Lib.Transition

section Host

variable {σ : Type} {cr : Crypto} (plat : Platform σ) {s : Server σ} {c : Conn}

-- The channel of the connection after one more message.
structure Seals (cr : Crypto) (m : Bytes) (c c' : Conn) : Prop where
  sent : c'.sent = c.sent ++ [m]
  ch : c'.ch = (rdChannelSeal cr c.ch m).2
  dead : c'.dead = c.dead
  rest : (c'.uid, c'.state, c'.viewOnly, c'.id) = (c.uid, c.state, c.viewOnly, c.id)

theorem Seals.kept {m : Bytes} {c c' : Conn} (h : Seals cr m c c') : c'.uid = c.uid ∧ c'.live = c.live ∧
    c'.ch.active = c.ch.active ∧ c'.ch.sendKey = c.ch.sendKey := by
  obtain ⟨-, hch, hdead, hrest⟩ := h
  simp only [Prod.mk.injEq] at hrest
  refine ⟨hrest.1, ?_, by rw [hch]; rfl, by rw [hch]; rfl⟩
  unfold Conn.live
  rw [hrest.2.1, hdead]

-- The reason the host gives when it turns a viewer away.
def refusal (cfg : ServerConfig) : AuthVerdict → Option Bytes
  | .locked secondsLeft =>
      some (ascii "Too many failed attempts - try again in " ++ ascii (toString secondsLeft) ++ ascii " s")
  | .wrong => some (ascii "Wrong password")
  | .full => some (ascii "Host is full (" ++ decimal cfg.maxViewers ++ ascii " viewers)")
  | .ok => none

-- The keys of a channel in use have 32 bytes.
def Keyed (ch : Channel) : Prop := ch.active = true → ch.sendKey.length = 32 ∧ ch.recvKey.length = 32

end Host

end TetherDesk
