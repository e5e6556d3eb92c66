import TetherDesk.Handshake
import TetherDesk.Login.Host

namespace TetherDesk

open TetherDesk.Client TetherDesk.Host TetherDesk.Net TetherDesk.Secure TetherDesk.Lib.Transition

-- What the viewer has sealed for the host.
theorem Matches.opened {cr : Crypto} {ch : Channel} {c : Conn} (hcr : cr.Sound) (h : Matches ch c.ch)
    (hlen : c.ch.recvKey.length = 32) (m : Bytes) : c.openMessage cr (rdChannelSeal cr ch m).1 =
      (some m, { c with ch := { c.ch with recvCtr := (c.ch.recvCtr + 1) % 2 ^ 64 } }) := by
  have hopen := rdChannelOpen_seal hcr h.key h.counter hlen m (List.replicate (rdChannelSeal cr ch m).1.length 0)
  unfold Conn.openMessage
  rw [if_neg (by simp [h.active]), hopen]
  dsimp only
  rw [if_neg (by omega)]
  simp

section Both

variable {σ : Type} (plat : Platform σ) {past : List (Server σ × ServerEvent σ)} {s : Server σ} {c : Conn} {a : App}

end Both

instance (a : App) (c : Conn) : Decidable (Agreed a c) :=
  decidable_of_iff (a.transcript = c.transcript ∧ (a.ch.active = true ∧ c.ch.active = true) ∧
    a.ch.sendKey = c.ch.recvKey ∧
    a.ch.recvKey = c.ch.sendKey ∧ a.ch.sendCtr = 0 ∧ a.ch.recvCtr = 0 ∧ c.ch.sendCtr = 0 ∧ c.ch.recvCtr = 0)
    ⟨fun ⟨h₁, h₂, h₃, h₄, h₅⟩ => ⟨h₁, h₂, h₃, h₄, h₅⟩, fun ⟨h₁, h₂, h₃, h₄, h₅⟩ => ⟨h₁, h₂, h₃, h₄, h₅⟩⟩

end TetherDesk
