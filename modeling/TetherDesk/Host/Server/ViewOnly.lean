import TetherDesk.Host.Server.Outer
import TetherDesk.Host.Server.Runs
import TetherDesk.Host.Server.Rehearsal

namespace TetherDesk.Host

open TetherDesk.Net TetherDesk.Secure TetherDesk.Lib.Table TetherDesk.Lib.Transition

-- The operator makes a viewer view-only while none of its uploads is open.
def RevokesIdle {σ : Type} (s : Server σ) (e : ServerEvent σ) : Prop :=
  ∀ io c, e = .consoleLine io → s.toggleTarget = some c → c.viewOnly = false → c.uploads = []

-- Uploads are open only in a session with control rights, or one that has ended.
def Idle (c : Conn) : Prop := c.state ≠ .Closing → (c.state = .Active → c.viewOnly = true) → c.uploads = []

section Runs

variable {σ : Type} (cr : Crypto) (plat : Platform σ) {past : List (Server σ × ServerEvent σ)} {s s' : Server σ}
  {e : ServerEvent σ} {c c' : Conn}

theorem Changed.idle (h : Changed cr s e c c') (hidle : Idle c) (hguard : RevokesIdle s e) : Idle c' := by
  have hsame : ∀ d : Conn, SameSession d c' → Idle d → Idle c' := by
    intro d hsession hd
    obtain ⟨hstate, -, -, -, hvo, hup, -⟩ := hsession.eqs
    unfold Idle at *
    rwa [hstate, hvo, hup]
  have hearly : c.state ≠ .Active → c.state ≠ .Closing → c'.uploads = c.uploads → Idle c' := by
    intro hactive hopen hup _ _
    rw [hup]
    exact hidle hopen fun h => absurd h hactive
  have hclosing : c'.state = .Closing → Idle c' := fun h h' => absurd h h'
  cases h with
  | quiet session _ _ _ => exact hsame c session hidle
  | upgraded before session _ _ =>
      have hstate : c.state = .Http ∨ c.state = .RelayUpgrade := before.imp And.left And.left
      refine hearly ?_ ?_ ((congrArg Session.uploads session).trans rfl)
      · rcases hstate with h | h <;> rw [h] <;> decide
      · rcases hstate with h | h <;> rw [h] <;> decide
  | answered before _ session _ _ =>
      exact hearly (by rw [before]; decide) (by rw [before]; decide) ((congrArg Session.uploads session).trans rfl)
  | incompatible before _ _ _ session _ _ =>
      exact hearly (by rw [before]; decide) (by rw [before]; decide) session.eqs.2.2.2.2.2.1
  | keyFailed before _ _ session _ _ =>
      exact hearly (by rw [before]; decide) (by rw [before]; decide) session.eqs.2.2.2.2.2.1
  | greeted _ _ _ _ _ before _ _ _ _ _ _ session _ _ =>
      exact hearly (by rw [before]; decide) (by rw [before]; decide) ((congrArg Session.uploads session).trans rfl)
  | refused _ _ _ _ _ _ _ session _ _ => exact hclosing session.eqs.1
  | authenticated _ _ before _ _ _ _ session _ _ =>
      exact hearly (by rw [before]; decide) (by rw [before]; decide) session.eqs.2.2.2.2.2.1
  | left _ _ _ _ _ _ _ session _ _ => exact hclosing session.eqs.1
  | kicked _ session _ _ => exact hclosing session.eqs.1
  | served before _ _ session uploads _ _ =>
      intro hopen hactive
      obtain ⟨hstate, -, -, -, hvo, -, -⟩ := session.eqs
      have hvo' : c.viewOnly = true := hvo ▸ hactive (hstate.trans before)
      exact uploads hvo' (hidle (by rw [before]; decide) fun _ => hvo')
  | toggled io before event target session _ _ =>
      intro hopen hactive
      obtain ⟨hstate, -, -, -, hvo, hup, -⟩ := session.eqs
      have hstate' : c.state = .Active := by
        unfold Conn.live at before
        simpa using (show c.state = .Active ∧ _ by simpa using before).1
      have hvo' := hactive (hstate.trans hstate')
      rw [hvo] at hvo'
      rw [hup]
      exact hguard io c event target (by simpa using hvo')

theorem Newcomer.idle (h : Newcomer c) : Idle c := fun _ _ => (congrArg Session.uploads h.session).trans rfl

theorem idle_run (run : Run (serverRuns cr plat) past s) (hguard : ∀ p ∈ past, RevokesIdle p.1 p.2) :
    ∀ c ∈ s.conns, Idle c :=
  rows_run cr plat run RevokesIdle (fun _ => Idle)
    (fun _ _ _ _ _ _ hstep hidle hg => hstep.changed.idle cr hidle hg)
    (fun _ _ h => h.idle) hguard

-- In every run in which the operator takes away control only while no upload of the
-- viewer is open, no message of a view-only viewer changes anything outside.
theorem view_only_enforced (run : Run (serverRuns cr plat) past s) (hguard : ∀ p ∈ past, RevokesIdle p.1 p.2)
    (hc : c ∈ s.conns) (hactive : c.state = .Active) (hvo : c.viewOnly = true) (io : Io)
    (h : (ServerEvent.message c.uid io).apply cr plat s = some s') : s'.outer = s.outer := by
  have htidy := tidy_run cr plat run
  have hno : ¬ LogsIn cr s (.message c.uid io) c := by
    rintro ⟨-, -, -, hauth, -⟩
    rw [hactive] at hauth
    cases hauth
  have hup : c.uploads = [] := idle_run cr plat run hguard c hc (by rw [hactive]; decide) fun _ => hvo
  unfold ServerEvent.apply at h
  split at h
  · cases h
  rw [Option.some.injEq] at h
  have hfind : s.find c.uid = some c := find_row Conn.uid htidy.distinct hc
  unfold Server.onConn at h
  rw [hfind] at h
  dsimp only at h
  rw [if_pos (by simp [Conn.upgraded, hactive])] at h
  rw [← h]
  exact wsRound_outer cr plat (htidy.row hc) (fun _ => ⟨hvo, hup⟩) hno

end Runs

theorem view_only_enforced_key_press :
    ∃ (past : List (Server Desk × ServerEvent Desk)) (s s' : Server Desk) (c : Conn),
      Run (serverRuns reference deskPlatform) past s ∧ (∀ p ∈ past, RevokesIdle p.1 p.2) ∧ c ∈ s.conns ∧
      c.state = .Active ∧ c.viewOnly = true ∧
      (ServerEvent.message c.uid deskIo).apply reference deskPlatform s = some s' ∧ s'.outer = s.outer := by
  have hrows : ((deskHost true (loginEvents 0 "Ann")).map fun s =>
      (s.thrown, s.conns.map fun c => (c.uid, c.state, c.viewOnly))) = some (false, [(0, .Active, true)]) := by
    unfold deskHost deskRun loginEvents sealedEvents
    rw [← rehearsed_eq]
    decide +kernel
  obtain ⟨s, hs, hrows⟩ := Option.map_eq_some_iff.mp hrows
  rw [Prod.mk.injEq] at hrows
  obtain ⟨hthrown, hrows⟩ := hrows
  obtain ⟨c, hc, hrow⟩ := List.map_eq_singleton_iff.mp hrows
  rw [Prod.mk.injEq, Prod.mk.injEq] at hrow
  obtain ⟨huid, hactive, hvo⟩ := hrow
  obtain ⟨past, hrun, hevents⟩ := deskHost_run hs
  have hguard : ∀ p ∈ past, RevokesIdle p.1 p.2 := by
    intro p hp io c he
    have hmem := List.mem_map_of_mem (f := Prod.snd) hp
    rw [hevents, he] at hmem
    simp [loginEvents, helloEvents, sealedEvents] at hmem
  have hmem : c ∈ s.conns := by simp [hc]
  obtain ⟨s', hs'⟩ : ∃ s', (ServerEvent.message c.uid deskIo).apply reference deskPlatform s = some s' := by
    unfold ServerEvent.apply
    rw [if_neg (by simp [hthrown])]
    exact ⟨_, rfl⟩
  exact ⟨past, s, s', c, hrun, hguard, hmem, hactive, hvo, hs',
    view_only_enforced reference deskPlatform hrun hguard hmem hactive hvo deskIo hs'⟩

-- An upload that was open before goes on.
theorem view_only_upload_written :
    ¬ ∀ (past : List (Server Desk × ServerEvent Desk)) (s : Server Desk),
      Run (serverRuns reference deskPlatform) past s →
      ∀ c ∈ s.conns, c.state = .Active → c.viewOnly = true → ∀ io s',
        (ServerEvent.message c.uid io).apply reference deskPlatform s = some s' → s'.outer = s.outer := by
  intro halways
  have hfacts : ((deskHost false (loginEvents 0 "Ann" ++
      sealedEvents 0 1 (putU8 RD_C_FILE_BEGIN ++ putU32 1 ++ putU64 5 ++ putStr (ascii "a.txt")) ++
      [.consoleRead (ascii "/viewonly Ann" ++ [10]), .consoleLine deskIo,
        .received 0 (clientFrame RD_WS_BINARY (rdAeadSeal reference (putU8 RD_C_FILE_CHUNK ++ putU32 1 ++
          ascii "hello") []
          deskKey (ctrNonce 2))) 0])).bind fun s =>
      ((ServerEvent.message 0 deskIo).apply reference deskPlatform s).map fun s' =>
        (s.conns.map fun c => (c.uid, c.state, c.viewOnly), s.os.calls, s'.os.calls)) =
      some ([(0, .Active, true)], [.fopen (ascii "down/a.txt")],
        [.fopen (ascii "down/a.txt"), .fwrite (ascii "hello")]) := by
    unfold deskHost deskRun loginEvents sealedEvents
    rw [← rehearsed_eq]
    decide +kernel
  obtain ⟨s, hs, hfacts⟩ := Option.bind_eq_some_iff.mp hfacts
  obtain ⟨s', hs', hfacts⟩ := Option.map_eq_some_iff.mp hfacts
  rw [Prod.mk.injEq, Prod.mk.injEq] at hfacts
  obtain ⟨hrows, hbefore, hafter⟩ := hfacts
  obtain ⟨c, hc, hrow⟩ := List.map_eq_singleton_iff.mp hrows
  rw [Prod.mk.injEq, Prod.mk.injEq] at hrow
  obtain ⟨huid, hactive, hvo⟩ := hrow
  obtain ⟨past, hrun, -⟩ := deskHost_run hs
  have houter := halways past s hrun c (by simp [hc]) hactive hvo deskIo s' (huid ▸ hs')
  have hos : s'.os = s.os := congrArg Prod.fst houter
  rw [hos, hbefore] at hafter
  exact absurd hafter (by decide)

end TetherDesk.Host
