import TetherDesk.Host.Screen

namespace TetherDesk.Host

open TetherDesk.Net TetherDesk.Secure

variable (cr : Crypto)

-- What each operation leaves alone.
theorem Conn.wsFrame_eq (c : Conn) (opcode : Nat) (p mask : Bytes) :
    ∃ more, c.wsFrame opcode p mask = { c with out := c.out ++ more } := by
  unfold Conn.wsFrame
  by_cases hdead : c.dead = true
  · rw [if_pos hdead]
    exact ⟨[], by rw [List.append_nil]⟩
  · rw [if_neg hdead]
    exact ⟨_, rfl⟩

theorem Conn.sendMsg_dead (c : Conn) (msg mask : Bytes) (h : c.dead = true) : c.sendMsg cr msg mask = c := by
  rw [Conn.sendMsg, if_pos h]

theorem Conn.sendMsg_alive (c : Conn) (msg mask : Bytes) (h : c.dead = false) :
    ∃ more sendCtr, c.sendMsg cr msg mask =
      { c with
        sent := c.sent ++ [msg]
        out := c.out ++ more
        ch := { c.ch with sendCtr := sendCtr } } := by
  rw [Conn.sendMsg, if_neg (by simp [h])]
  dsimp only [rdChannelSeal]
  by_cases hactive : c.ch.active = true
  · rw [if_neg (by simp [hactive])]
    by_cases hclient : c.clientWs = true
    · rw [if_pos hclient]
      obtain ⟨more, hmore⟩ := Conn.wsFrame_eq { c with
          sent := c.sent ++ [msg]
          ch := { c.ch with sendCtr := (c.ch.sendCtr + 1) % 2 ^ 64 } } RD_WS_BINARY
        (rdAeadSeal cr msg [] c.ch.sendKey (ctrNonce c.ch.sendCtr)) mask
      exact ⟨more, _, hmore⟩
    · rw [if_neg hclient]
      exact ⟨_, _, rfl⟩
  · rw [if_pos (by simp [hactive])]
    obtain ⟨more, hmore⟩ := Conn.wsFrame_eq { c with sent := c.sent ++ [msg] } RD_WS_BINARY msg mask
    exact ⟨more, c.ch.sendCtr, hmore⟩

theorem Conn.settle_eq (c : Conn) :
    ∃ out outOff dead, c.settle = { c with out := out, outOff := outOff, dead := dead } := by
  unfold Conn.settle
  split_ifs
  · exact ⟨_, _, _, rfl⟩
  · exact ⟨_, _, c.dead, rfl⟩
  · exact ⟨c.out, c.outOff, c.dead, rfl⟩

theorem Conn.flush_eq (c : Conn) (answers : List SockAnswer) :
    ∃ o : Outgoing, c.flush answers = { c with toOutgoing := o } ∧ o.sent = c.sent := by
  unfold Conn.flush Conn.sendPending
  dsimp only
  split_ifs
  · exact ⟨c.toOutgoing, rfl, rfl⟩
  · exact ⟨_, rfl, rfl⟩
  · obtain ⟨out, outOff, dead, h⟩ := Conn.settle_eq { c with
      tls := (link.drain answers c.tls (c.out.drop c.outOff)).writer
      outOff := c.outOff + (link.drain answers c.tls (c.out.drop c.outOff)).count
      bytesSent := c.bytesSent + (link.drain answers c.tls (c.out.drop c.outOff)).count
      wire := c.wire ++ (link.drain answers c.tls (c.out.drop c.outOff)).delivered }
    exact ⟨_, h, rfl⟩

theorem Conn.adaptQuality_eq (c : Conn) (now : Nat) :
    ∃ cleanWindows effFps quality stalls sends adaptWindowUs,
      c.adaptQuality now =
        { c with
          cleanWindows := cleanWindows
          effFps := effFps
          quality := quality
          stalls := stalls
          sends := sends
          adaptWindowUs := adaptWindowUs } ∧ quality ≤ max 2 c.quality := by
  unfold Conn.adaptQuality
  dsimp only
  split_ifs
  · exact ⟨c.cleanWindows, c.effFps, c.quality, c.stalls, c.sends, c.adaptWindowUs, rfl, by omega⟩
  all_goals
    refine ⟨_, _, _, _, _, _, rfl, ?_⟩
    first | omega | (dsimp only; omega)

-- The outcomes of offering a frame: nothing is sent, or it is encoded.
theorem Conn.offerFrame_cases (c c' : Conn) (f : Frame) (now threads : Nat) (schedule : List Nat) (mask : Bytes)
    (h : c.offerFrame cr f now threads schedule mask = some c') :
    (∃ lastChangeUs stalls, c' = { c with lastChangeUs := lastChangeUs, stalls := stalls }) ∨
    ∃ lastChangeUs changed budget, sub32 c.frameId c.acked < kMaxFramesInFlight ∧
      { c with lastChangeUs := lastChangeUs }.encodeFrame cr f now changed budget threads schedule mask =
        some c' := by
  unfold Conn.offerFrame at h
  dsimp only at h
  generalize decide (f.seq ≠ c.lastSeq) = changed at h
  have hlast : ∃ lastChangeUs, (if changed = true then { c with lastChangeUs := now } else c) =
      { c with lastChangeUs := lastChangeUs } := by
    cases changed
    · exact ⟨c.lastChangeUs, rfl⟩
    · exact ⟨now, rfl⟩
  obtain ⟨lastChangeUs, hlast⟩ := hlast
  rw [hlast] at h
  split_ifs at h with _ _ hfull
  · exact .inl ⟨lastChangeUs, c.stalls, (Option.some.inj h).symm⟩
  · exact .inl ⟨lastChangeUs, c.stalls, (Option.some.inj h).symm⟩
  · exact .inl ⟨lastChangeUs, _, (Option.some.inj h).symm⟩
  · exact .inl ⟨lastChangeUs, c.stalls, (Option.some.inj h).symm⟩
  all_goals exact .inr ⟨lastChangeUs, _, _, Nat.lt_of_not_le fun hle => hfull (.inl hle), h⟩

end TetherDesk.Host
