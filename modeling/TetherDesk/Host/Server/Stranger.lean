import TetherDesk.Host.Server.Outer

namespace TetherDesk.Host

open TetherDesk.Net TetherDesk.Secure TetherDesk.Lib.Table

-- What nothing but a session message and the screen's frames changes.
structure Untouched (c c' : Conn) : Prop where
  uid : c'.uid = c.uid
  uploads : c'.uploads = c.uploads
  sentInput : c'.sentInput = c.sentInput
  screen : c'.toScreen = c.toScreen

theorem Untouched.refl (c : Conn) : Untouched c c := ⟨rfl, rfl, rfl, rfl⟩

theorem Untouched.trans {a b c : Conn} (h₁ : Untouched a b) (h₂ : Untouched b c) : Untouched a c :=
  ⟨h₂.uid.trans h₁.uid, h₂.uploads.trans h₁.uploads, h₂.sentInput.trans h₁.sentInput, h₂.screen.trans h₁.screen⟩

section Rows

variable (cr : Crypto) (c : Conn)

theorem Read.untouched {c c₂ : Conn} (h : Read c c₂) : Untouched c c₂ := by
  obtain ⟨ws, inn, recvCtr, rfl, -⟩ := h
  exact ⟨rfl, rfl, rfl, rfl⟩

theorem wsFrame_untouched (opcode : Nat) (p mask : Bytes) : Untouched c (c.wsFrame opcode p mask) := by
  obtain ⟨more, h⟩ := c.wsFrame_eq opcode p mask
  rw [h]
  exact ⟨rfl, rfl, rfl, rfl⟩

theorem sendMsg_untouched (msg mask : Bytes) : Untouched c (c.sendMsg cr msg mask) := by
  cases hdead : c.dead with
  | true =>
      rw [Conn.sendMsg_dead cr c msg mask hdead]
      exact .refl c
  | false =>
      obtain ⟨out, sendCtr, h⟩ := Conn.sendMsg_alive cr c msg mask hdead
      rw [h]
      exact ⟨rfl, rfl, rfl, rfl⟩

theorem refuse_untouched (why mask : Bytes) : Untouched c (c.refuse cr why mask) := by
  unfold Conn.refuse
  obtain ⟨huid, hup, hinput, hscreen⟩ := sendMsg_untouched cr c (authResultMsg false false why) mask
  exact ⟨huid, hup, hinput, hscreen⟩

theorem incompatible_untouched (mask : Bytes) : Untouched c (c.incompatible cr mask) := by
  unfold Conn.incompatible
  obtain ⟨huid, hup, hinput, hscreen⟩ := sendMsg_untouched cr c
    (authResultMsg false false (ascii "Incompatible viewer version - please update TetherDesk")) mask
  exact ⟨huid, hup, hinput, hscreen⟩

theorem hello_untouched {σ : Type} (plat : Platform σ) (cfg : ServerConfig) (r : Reader) (io : Io) :
    Untouched c (c.hello cr plat cfg r io) := by
  have hincompatible : ∀ name mask, Untouched c ({ c with name := name }.incompatible cr mask) := fun name mask =>
    Untouched.trans (b := { c with name := name }) ⟨rfl, rfl, rfl, rfl⟩
      (incompatible_untouched cr { c with name := name } mask)
  unfold Conn.hello
  dsimp only
  cases (readClientHello r).ce with
  | none => exact hincompatible _ _
  | some ce =>
      dsimp only
      split
      · exact hincompatible _ _
      cases keyAgreement cr cfg ce io with
      | none => exact ⟨rfl, rfl, rfl, rfl⟩
      | some dh =>
          obtain ⟨dh1, dh2⟩ := dh
          dsimp only
          generalize hc₃ : ({ c with
            name := (readClientHello r).name
            nonce := io.random 0
            transcript := rdHsTranscript cr ce cfg.staticPub (rdX25519Base cr (io.random 1)) (io.random 0) } :
              Conn) = c₃
          have hsent := sendMsg_untouched cr c₃
              (helloMsg cfg plat.osName (io.random 0) (rdX25519Base cr (io.random 1)))
            (io.mask 0 c.uid)
          have hc : Untouched c c₃ := by
            rw [← hc₃]
            exact ⟨rfl, rfl, rfl, rfl⟩
          obtain ⟨huid, hup, hinput, hscreen⟩ := hc.trans hsent
          exact ⟨huid, hup, hinput, hscreen⟩

end Rows

section Messages

variable {σ : Type} (cr : Crypto) (plat : Platform σ) {s : Server σ} {c c₂ : Conn} {io : Io}

theorem put_alone {own : Conn → Conn → Prop} (hrow : ∀ d ∈ s.conns, d.uid = c.uid → d = c) (h : own c c₂) :
    Evolves (Alone c.uid own) s.conns (s.modify c.uid fun _ => c₂).conns := by
  refine (modify_alone s c.uid _ _ fun d hd huid => ?_).conns
  rw [hrow d hd huid]
  exact h

theorem put_close_alone (hrow : ∀ d ∈ s.conns, d.uid = c.uid → d = c) (halive : c.dead = false) (hread : Read c c₂)
    (reason : Bytes) :
    Evolves (Alone c.uid Untouched) s.conns ((s.modify c.uid fun _ => c₂).closeConn c₂ reason).conns := by
  obtain ⟨huid, hdead, -⟩ := hread.eqs
  rw [closeConn_conns _ c₂ _ (hdead.trans halive), huid, put_modify s huid]
  exact put_alone hrow (hread.untouched.trans ⟨rfl, rfl, rfl, rfl⟩)

-- Before the login a message acts on its own connection alone.
theorem wsRound_alone (hrow : ∀ d ∈ s.conns, d.uid = c.uid → d = c) (hstate : c.state ≠ .Active)
    (hno : ¬ LogsIn cr s (.message c.uid io) c) :
    ∃ rows new, (s.wsRound cr plat c io).1.conns = rows ++ new ∧ Evolves (Alone c.uid Untouched) s.conns rows ∧
      Joins s (s.wsRound cr plat c io).1 new := by
  have hkeep : ∀ t : Server σ, Evolves (Alone c.uid Untouched) s.conns t.conns → t.nextUid = s.nextUid →
      ∃ rows new, t.conns = rows ++ new ∧ Evolves (Alone c.uid Untouched) s.conns rows ∧ Joins s t new :=
    fun t h huid => ⟨t.conns, [], (List.append_nil _).symm, h, .nobody huid⟩
  have hround := wsRound_cases cr plat io hrow
  generalize (s.wsRound cr plat c io).1 = s' at hround ⊢
  cases hround with
  | stopped h => exact hkeep s (same_alone rfl rfl Untouched.refl).conns rfl
  | read c₂ hread _ => exact hkeep _ (put_alone hrow hread.untouched) rfl
  | closed c₂ hread halive _ reason =>
      exact hkeep _ (put_close_alone hrow halive hread reason) (congrArg Books.nextUid (closeConn_books _ _ _))
  | pong c₂ hread _ payload =>
      exact hkeep _ (put_alone hrow (hread.untouched.trans (wsFrame_untouched _ _ _ _))) rfl
  | left c₂ hread _ _ _ m _ _ lines =>
      refine hkeep _ (put_alone (s := s) hrow (hread.untouched.trans ?_)) rfl
      obtain ⟨huid, hup, hinput, hscreen⟩ := wsFrame_untouched c₂ RD_WS_CLOSE (m.data.take 2) (io.mask 0 c.uid)
      exact ⟨huid, hup, hinput, hscreen⟩
  | opened c₂ hread _ m =>
      obtain ⟨new, hconns, hjoins, -⟩ := relayOpen_joins cr (s := s.modify c.uid fun _ => c₂) (c := c₂) m
      exact ⟨_, new, hconns, put_alone hrow hread.untouched, hjoins.of_uid rfl⟩
  | hello c₂ hread _ _ r _ =>
      exact hkeep _ (put_alone hrow (hread.untouched.trans (hello_untouched cr c₂ plat _ r io))) rfl
  | refused c₂ hread _ _ r _ _ guard lines why =>
      exact hkeep _ (put_alone (s := s) hrow (hread.untouched.trans (refuse_untouched cr c₂ why _))) rfl
  | login c₂ _ halive hauth r hmsg hverdict _ => exact absurd ⟨io, r, rfl, hauth, halive, hmsg, hverdict⟩ hno
  | session c₂ _ _ hactive => exact absurd hactive hstate

end Messages

end TetherDesk.Host
