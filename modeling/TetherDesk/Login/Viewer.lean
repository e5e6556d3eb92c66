import TetherDesk.Client.App.Handlers
import TetherDesk.Client.App.Run
import TetherDesk.Host.Server
import TetherDesk.Pipeline
import TetherDesk.Reader.Theorems

namespace TetherDesk

open TetherDesk.Client TetherDesk.Host TetherDesk.Secure

-- A text as the other end reads it into a buffer of n + 1 bytes.
def clip (n : Nat) (t : Bytes) : Bytes := ((cStr t).take 0xFFFF).take n

section ReadBack

end ReadBack

section Viewer

variable {cr : Crypto} {v : App} {ch : Channel}

-- What one end of a channel has sealed the other end can open next.
structure Matches (ch v : Channel) : Prop where
  active : v.active = true
  key : ch.sendKey = v.recvKey
  counter : ch.sendCtr = v.recvCtr

theorem sealedChannel_eq (cr : Crypto) (ch : Channel) (msgs : List Bytes) :
    sealedChannel cr ch msgs = { ch with sendCtr := (sealedChannel cr ch msgs).sendCtr } := by
  unfold sealedChannel
  induction msgs generalizing ch with
  | nil => rfl
  | cons m ms ih => exact ih (rdChannelSeal cr ch m).2

theorem Matches.next (h : Matches ch v.ch) (m : Bytes) :
    Matches (rdChannelSeal cr ch m).2 { v.ch with recvCtr := (v.ch.recvCtr + 1) % 2 ^ 64 } :=
  ⟨h.active, h.key, congrArg (fun n => (n + 1) % 2 ^ 64) h.counter⟩

-- What the session messages leave alone.
def App.link (a : App) : Client.Phase × AppScreen × Dialog × Bool × Channel × AppTransport :=
  (a.phase, a.screen, a.dialog, a.viewOnly, a.ch, a.transport)

end Viewer

end TetherDesk
