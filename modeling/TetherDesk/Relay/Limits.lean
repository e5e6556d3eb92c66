import TetherDesk.Relay.Output

namespace TetherDesk.Relay

open TetherDesk.Net TetherDesk.Secure TetherDesk.Lib.Transition TetherDesk.Lib.Table

-- The live connections from one address.
def Globals.liveCount (s : Globals) (ip : Bytes) : Nat := s.conns.countP fun c => !c.dead && c.ip = ip

-- A request that moves its connection to another address, by a forwarding header,
-- moves it to one that has room.
def Globals.RoomFor (s : Globals) : Event → Prop
  | .read uid data closed _ =>
      ∀ c r rest ip, s.find uid = some c → c.dead = false → c.kind = .Http → closed = false →
        { c with inn := c.inn ++ data }.request = some (r, rest) → r.ip = some ip → ip ≠ c.ip →
          s.liveCount ip < kMaxConnsPerIp
  | _ => True

section Steps

variable {cr : Crypto} {asks : Option Nat} {s s' : Globals} {c : Conn} {ip : Bytes} {u : Nat}

theorem Keeps.liveCount_le (h : Keeps cr asks s s') (ip : Bytes) : s'.liveCount ip ≤ s.liveCount ip := by
  refine h.rows.countP_le fun c c' hkept hlive => ?_
  simp only [Bool.and_eq_true, Bool.not_eq_true', decide_eq_true_eq] at hlive ⊢
  refine ⟨?_, hkept.ip.symm.trans hlive.2⟩
  cases hdead : c.dead with
  | false => rfl
  | true => exact absurd (hkept.dead hdead) (by rw [hlive.1]; decide)

-- One connection more from the address it goes to, and none elsewhere.
theorem move_liveCount (ip : Bytes) (hdistinct : s.uids.Nodup) (hc : s.find u = some c) (c' : Conn)
    (halive : c.dead = false) :
    (s.modify u fun _ => c').liveCount ip ≤ s.liveCount ip + if ip = c'.ip ∧ ip ≠ c.ip then 1 else 0 := by
  have hcount : (s.modify u fun _ => c').liveCount ip =
      s.conns.countP fun d => if d.uid = u then !c'.dead && decide (c'.ip = ip) else !d.dead &&
        decide (d.ip = ip) := by
    unfold Globals.liveCount Globals.modify
    dsimp only
    rw [List.countP_map]
    refine List.countP_congr fun d _ => ?_
    rw [Function.comp_apply]
    split_ifs <;> rfl
  rw [hcount]
  by_cases hmoves : ip = c'.ip ∧ ip ≠ c.ip
  · rw [if_pos hmoves]
    refine Nat.le_trans (List.countP_mono_left fun d _ hd => ?_)
      (countP_key_le Conn.uid (fun d => !d.dead && decide (d.ip = ip)) hdistinct u)
    by_cases huid : d.uid = u
    · simp [huid]
    · rw [if_neg huid] at hd
      rw [hd, Bool.true_or]
  · rw [if_neg hmoves]
    refine List.countP_mono_left fun d hd hcounted => ?_
    by_cases huid : d.uid = u
    · rw [if_pos huid] at hcounted
      simp only [Bool.and_eq_true, decide_eq_true_eq] at hcounted
      have hsame : ip = c.ip := by
        by_contra hne
        exact hmoves ⟨hcounted.2.symm, hne⟩
      obtain rfl := row_unique Conn.uid hdistinct hd (List.mem_of_find?_eq_some hc) (huid.trans (find_uid hc).symm)
      simp [halive, hsame]
    · rwa [if_neg huid] at hcounted

theorem accept_liveCount (addr : Bytes) (now : Nat) (h : s.liveCount ip ≤ kMaxConnsPerIp) :
    (s.accept addr now).liveCount ip ≤ kMaxConnsPerIp := by
  unfold Globals.accept
  split
  · exact h
  · next hroom =>
      rw [not_or] at hroom
      have hseen : s.liveCount addr ≤ s.conns.countP fun c => decide (c.ip = addr) :=
        List.countP_mono_left fun c _ hc => by
        rw [Bool.and_eq_true] at hc
        exact hc.2
      unfold Globals.liveCount at h hseen ⊢
      rw [List.countP_append, List.countP_singleton]
      by_cases hip : addr = ip
      · have := hroom.2
        rw [← hip]
        split <;> omega
      · rw [if_neg (by simp [hip])]
        exact h

theorem reap_liveCount : s.reap.liveCount ip ≤ s.liveCount ip := List.filter_sublist.countP_le

theorem apply_liveCount (hdistinct : s.uids.Nodup) {e : Event} (hroom : s.RoomFor e)
    (h : ∀ ip, s.liveCount ip ≤ kMaxConnsPerIp) : (e.apply cr s).liveCount ip ≤ kMaxConnsPerIp := by
  cases e with
  | accept addr now => exact accept_liveCount addr now (h ip)
  | read uid data closed io =>
      unfold Event.apply
      dsimp only
      by_cases hlive : s.live uid = true
      · rw [if_pos hlive]
        obtain hkeeps | ⟨c, c₁, c', t, r, rest, hc, hkind, hopen, hr, hfind, hip₁, hdead₁, hip', -,
            hread, hkeeps⟩ :=
          readConn_keeps (u := uid) cr data closed io
        · exact (hkeeps.liveCount_le ip).trans (h ip)
        have halive : c.dead = false := by
          unfold Globals.live at hlive
          rw [hc] at hlive
          simpa using hlive
        have hmove := move_liveCount ip (hread.uids ▸ hdistinct) hfind c' (hdead₁.trans halive)
        have hbefore := hread.liveCount_le ip
        have hafter := hkeeps.liveCount_le ip
        by_cases hmoves : ip = c'.ip ∧ ip ≠ c₁.ip
        · rw [if_pos hmoves] at hmove
          have hforwarded : r.ip = some ip := by
            cases hr' : r.ip with
            | none =>
                rw [hr', Option.getD_none] at hip'
                exact absurd (hmoves.1.trans (hip'.trans hip₁.symm)) hmoves.2
            | some other =>
                rw [hr', Option.getD_some] at hip'
                rw [hmoves.1, hip']
          have hroom' := hroom c r rest ip hc halive hkind hopen hr hforwarded (hip₁ ▸ hmoves.2)
          omega
        · rw [if_neg hmoves] at hmove
          have := h ip
          omega
      · rw [if_neg hlive]
        exact h ip
  | flush uid answers =>
      unfold Event.apply
      dsimp only
      split
      · exact ((flush_keeps cr hdistinct answers).liveCount_le ip).trans (h ip)
      · exact h ip
  | sweep uid now answers => exact ((sweep_keeps cr hdistinct now answers).liveCount_le ip).trans (h ip)
  | reap => exact reap_liveCount.trans (h ip)

theorem Keeps.length (h : Keeps cr asks s s') : s'.conns.length = s.conns.length :=
    List.Forall₂.length_eq h.rows |>.symm

theorem apply_length (hdistinct : s.uids.Nodup) (e : Event) (h : s.conns.length ≤ kMaxConns) :
    (e.apply cr s).conns.length ≤ kMaxConns := by
  cases e with
  | accept addr now =>
      unfold Event.apply Globals.accept
      dsimp only
      split
      · exact h
      · next hroom =>
          rw [not_or] at hroom
          rw [List.length_append, List.length_singleton]
          omega
  | read uid data closed io =>
      unfold Event.apply
      dsimp only
      split
      · obtain hkeeps | ⟨_, _, c', t, _, _, _, _, _, _, _, _, _, _, _, hread, hkeeps⟩ :=
          readConn_keeps (u := uid) cr data closed io
        · rwa [hkeeps.length]
        · have hmap : (t.modify uid fun _ => c').conns.length = t.conns.length := List.length_map _
          rwa [hkeeps.length, hmap, hread.length]
      · exact h
  | flush uid answers =>
      unfold Event.apply
      dsimp only
      split
      · rwa [(flush_keeps cr hdistinct answers).length]
      · exact h
  | sweep uid now answers =>
      exact (sweep_keeps cr hdistinct now answers).length ▸ h
  | reap => exact (List.length_filter_le _ _).trans h

end Steps

section Runs

variable {cr : Crypto} {s : Globals} {past : List (Globals × Event)}

-- No address has too many live connections as long as no forwarding header names one
-- that is full; the limit on all connections always holds.
theorem connection_limits (run : Run (relayRuns cr) past s) :
    s.conns.length ≤ kMaxConns ∧ ((∀ p ∈ past, p.1.RoomFor p.2) → ∀ ip, s.liveCount ip ≤ kMaxConnsPerIp) := by
  refine ⟨?_, fun hguard => ?_⟩
  · refine (run.invariant (fun _ s => s.Sane ∧ s.conns.length ≤ kMaxConns) ?_ ?_).2
    · rintro _ ⟨webRoot, rfl⟩
      exact ⟨sane_started webRoot, Nat.zero_le _⟩
    · rintro _ s e _ ⟨hsane, hlength⟩ ⟨-, rfl⟩
      exact ⟨hsane.next e, apply_length hsane.tidy.distinct e hlength⟩
  · refine (run.guarded (fun s e => s.RoomFor e) (fun _ s => s.Sane ∧ ∀ ip, s.liveCount ip ≤
      kMaxConnsPerIp) ?_ ?_ hguard).2
    · rintro _ ⟨webRoot, rfl⟩
      exact ⟨sane_started webRoot, fun ip => Nat.zero_le _⟩
    · rintro _ s e _ ⟨hsane, hlimit⟩ hroom ⟨-, rfl⟩
      exact ⟨hsane.next e, fun ip => apply_liveCount hsane.tidy.distinct hroom hlimit⟩

end Runs

theorem roomFor_of_few (s : Globals) (e : Event) (h : s.conns.length < kMaxConnsPerIp) : s.RoomFor e := by
  unfold Globals.RoomFor
  split
  · exact fun _ _ _ _ _ _ _ _ _ _ _ => List.countP_le_length.trans_lt h
  · trivial

def forwardedRequest (ip : String) : Bytes :=
  ascii "GET /healthz HTTP/1.1" ++ crlf ++ ascii "Fly-Client-IP: " ++ ascii ip ++ crlf ++ crlf

def forwardedEvents : List Event :=
  [.accept (ascii "192.0.2.1") 0, .read 0 (forwardedRequest "198.51.100.7") false quietIo,
    .accept (ascii "192.0.2.1") 0]

def forwarded : Globals := forwardedEvents.foldl (fun s e => e.apply reference s) (Globals.started [])

theorem connection_limits_forwarded : forwarded.conns.length ≤ kMaxConns ∧ ∀ ip, forwarded.liveCount ip ≤
    kMaxConnsPerIp := by
  have run : Run (relayRuns reference) _ forwarded := events_run forwardedEvents (by decide +kernel)
  obtain ⟨hlength, hlimit⟩ := connection_limits run
  refine ⟨hlength, hlimit ?_⟩
  have hfew : ∀ p ∈ historyOf forwardedEvents,
      p.1.conns.length < kMaxConnsPerIp := by decide
  exact fun p hp => roomFor_of_few _ _ (hfew p hp)

-- Sixty connections from one address, and one from another whose request names the first.
def crowdEvents : List Event :=
  List.replicate 60 (.accept (ascii "192.0.2.1") 0) ++
    [.accept (ascii "192.0.2.2") 0, .read 60 (forwardedRequest "192.0.2.1") false quietIo]

def crowd : Globals := crowdEvents.foldl (fun s e => e.apply reference s) (Globals.started [])

theorem forwarded_address_uncounted : ¬ ∀ cr past s, Run (relayRuns cr) past s → ∀ ip, s.liveCount ip ≤
    kMaxConnsPerIp := by
  intro h
  have run : Run (relayRuns reference) _ crowd := events_run crowdEvents (by decide +kernel)
  have hcount : crowd.liveCount (ascii "192.0.2.1") = 61 := by decide +kernel
  have hlimit := h _ _ _ run (ascii "192.0.2.1")
  rw [hcount] at hlimit
  exact absurd hlimit (by decide)

end TetherDesk.Relay
