import TetherDesk.Client.App.Run
import TetherDesk.Host.Server.Runs
import TetherDesk.Reader.Theorems
import TetherDesk.Secure.Inverse

namespace TetherDesk

open TetherDesk.Client TetherDesk.Host TetherDesk.Secure TetherDesk.Lib.Transition

-- rd_x25519(a, pub(b)) and rd_x25519(b, pub(a)) are the same secret.
def Commutes (cr : Crypto) (a b : Bytes) : Prop :=
  (rdX25519 cr a (rdX25519Base cr b)).isSome ∧ rdX25519 cr a (rdX25519Base cr b) = rdX25519 cr b (rdX25519Base cr a)

instance (cr : Crypto) (a b : Bytes) : Decidable (Commutes cr a b) := inferInstanceAs (Decidable (_ ∧ _))

-- The viewer as start_connect leaves it, once the transport has opened.
structure Dialled (cr : Crypto) (a : App) : Prop where
  phase : a.phase = .Connecting
  opened : a.transport.state = .Open
  plain : a.ch.active = false
  key : a.ce = rdX25519Base cr a.cePriv

-- What the two ends agree on: the transcript, and keys that are crossed, with nothing
-- sent or received on the channel yet.
structure Agreed (a : App) (c : Conn) : Prop where
  transcript : a.transcript = c.transcript
  active : a.ch.active = true ∧ c.ch.active = true
  sendKey : a.ch.sendKey = c.ch.recvKey
  recvKey : a.ch.recvKey = c.ch.sendKey
  counters : a.ch.sendCtr = 0 ∧ a.ch.recvCtr = 0 ∧ c.ch.sendCtr = 0 ∧ c.ch.recvCtr = 0

-- The AUTH that the viewer sends is opened by the host and passes the MAC check.
def AuthPasses (cr : Crypto) (cfg : ServerConfig) (a : App) (c : Conn) : Prop :=
  ∃ auth p c', (a.sendAuth cr).transport.sent = a.transport.sent ++ [auth] ∧ c.openMessage cr auth = (some p, c') ∧
    (rdGetU8 (rdReaderInit p)).1 = RD_C_AUTH ∧ authMacOk cr cfg c' (rdGetU8 (rdReaderInit p)).2 = true

-- The two HELLOs: c' is the connection the host is left with, b the viewer as it was
-- before it sent AUTH or asked about the fingerprint.
structure Greeting {σ : Type} (cr : Crypto) (plat : Platform σ) (s : Server σ) (c : Conn) (a : App) (io : Host.Io)
    (appIo : AppIo) (hello reply : Bytes) (c' : Conn) (b : App) : Prop where
  said : (a.sayHello cr).transport.sent = a.transport.sent ++ [hello]
  heard : (readClientHello (rdGetU8 (rdReaderInit hello)).2).ce = some a.ce
  greeted : (s.handleMessage cr plat c hello io).find c.uid = some c' ∧ c'.state = .Auth ∧
    c'.sent = c.sent ++ [reply]
  ss : (readHello (rdGetU8 (rdReaderInit reply)).2).ss = s.cfg.staticPub
  se : (readHello (rdGetU8 (rdReaderInit reply)).2).se = rdX25519Base cr (io.random 1)
  nonce : (readHello (rdGetU8 (rdReaderInit reply)).2).nonce = io.random 0
  answered : (a.sayHello cr).handleMessage cr appIo reply = b.sendAuth cr ∨
    (a.sayHello cr).handleMessage cr appIo reply = { b with phase := .Verify, dialog := .Verify }
  kept : b.transport.state = .Open ∧ b.target = a.target
  agreed : Agreed b c'
  passes : ∀ v : App, v.ch = b.ch → v.transcript = b.transcript → v.transport.state = .Open →
    v.target.password = s.cfg.password → AuthPasses cr s.cfg v c'

theorem startConnect_dialled (cr : Crypto) (a : App) (priv : Bytes) (failed : Option Bytes) (error : Bytes)
    (h : (a.startConnect cr priv failed).phase = .Connecting) :
    Dialled cr ((AppEvent.network .Open error).apply cr (a.startConnect cr priv failed)) := by
  unfold App.startConnect at h ⊢
  dsimp only at h ⊢
  by_cases hhost : a.target.host = []
  · rw [if_pos hhost] at h
    exact absurd h (by unfold App.failConnect; dsimp only; split <;> simp)
  · rw [if_neg hhost] at h ⊢
    by_cases hport : relayIdOf a.target.host = [] ∧ (a.target.port ≤ 0 ∨ a.target.port > 65535)
    · rw [if_pos hport] at h
      exact absurd h (by unfold App.failConnect; dsimp only; split <;> simp)
    · rw [if_neg hport]
      exact ⟨rfl, rfl, rfl, rfl⟩

section Messages

theorem clientHello_read (name ce : Bytes) (hce : ce.length = 32) : ∃ r,
    rdGetU8 (rdReaderInit (putU8 RD_C_HELLO ++ putU16 RD_PROTO_VERSION ++ putStr name ++ ce)) = (RD_C_HELLO, r) ∧
      (readClientHello r).version = RD_PROTO_VERSION ∧ (readClientHello r).ce = some ce := by
  refine ⟨⟨putU16 RD_PROTO_VERSION ++ (putStr name ++ ce), false⟩, ?_, ?_⟩
  · rw [List.append_assoc, List.append_assoc, rdReaderInit, rdGetU8_putU8 _ (by decide)]
  · have hkey := rdGetBytes_append ce [] 32 hce
    rw [List.append_nil] at hkey
    unfold readClientHello
    rw [rdGetU16_putU16 _ (by decide)]
    dsimp only
    rw [rdGetStr_putStr]
    dsimp only
    rw [hkey]
    exact ⟨rfl, rfl⟩

theorem hello_read (cfg : ServerConfig) (osName nonce se : Bytes) (hnonce : nonce.length = RD_NONCE_LEN)
    (hss : (cfg.staticPub.take 32).length = 32) (hse : se.length = 32) : ∃ r,
    rdGetU8 (rdReaderInit (helloMsg cfg osName nonce se)) = (RD_S_HELLO, r) ∧
      readHello r = ⟨RD_PROTO_VERSION, RD_AUTH_X25519_CHACHA, nonce,
        cStr (((cStr cfg.hostName).take 0xFFFF).take 255),
        cStr (((cStr osName).take 0xFFFF).take 255), cfg.staticPub.take 32, se, false⟩ := by
  refine ⟨⟨putU16 RD_PROTO_VERSION ++
    (putU8 RD_AUTH_X25519_CHACHA ++ (nonce ++ (putStr cfg.hostName ++ (putStr osName ++
    (cfg.staticPub.take 32 ++ se))))), false⟩, ?_, ?_⟩
  · unfold helloMsg
    simp only [List.append_assoc]
    rw [rdReaderInit, rdGetU8_putU8 _ (by decide)]
  · have hkey := rdGetBytes_append se [] 32 hse
    rw [List.append_nil] at hkey
    unfold readHello
    rw [rdGetU16_putU16 _ (by decide)]
    dsimp only
    rw [rdGetU8_putU8 _ (by decide)]
    dsimp only
    rw [rdGetBytes_append nonce _ _ hnonce]
    dsimp only
    rw [rdGetStr_putStr]
    dsimp only
    rw [rdGetStr_putStr]
    dsimp only
    rw [rdGetBytes_append _ _ _ hss]
    dsimp only
    rw [hkey]
    rfl

end Messages

section Host

variable {σ : Type} (cr : Crypto) (plat : Platform σ) {past : List (Server σ × ServerEvent σ)}
  {s : Server σ} {c : Conn}

-- Encryption starts with the answer to the HELLO.
theorem changed_plain {e : ServerEvent σ} {c' : Conn} (hrow : Changed cr s e c c')
    (h : c.ch.active = false ∨ c.state = .Auth ∨ c.state = .Active ∨ c.state = .Closing) :
    c'.ch.active = false ∨ c'.state = .Auth ∨ c'.state = .Active ∨ c'.state = .Closing := by
  have hsame : ∀ {d : Conn}, SameSession d c' → d.ch = c.ch → d.state = c.state →
      c'.ch.active = false ∨ c'.state = .Auth ∨ c'.state = .Active ∨ c'.state = .Closing := by
    rintro d ⟨sendCtr, recvCtr, hsession⟩ hch hstate
    have hactive : c'.ch.active = d.ch.active := (congrArg (fun t => t.ch.active) hsession).trans rfl
    have hstate' : c'.state = d.state := (congrArg Session.state hsession).trans rfl
    rwa [hactive, hstate', hch, hstate]
  cases hrow with
  | quiet session => exact hsame session rfl rfl
  | upgraded before session =>
      have hch : c'.ch = c.ch := (congrArg Session.ch session).trans rfl
      refine .inl ?_
      rw [hch]
      rcases h with h | h | h | h
      · exact h
      all_goals simp [h] at before
  | answered _ _ session =>
      have hch : c'.ch = c.ch := congrArg Session.ch session
      have hstate : c'.state = c.state := congrArg Session.state session
      rwa [hch, hstate]
  | incompatible _ _ _ _ session => exact hsame session rfl rfl
  | keyFailed _ _ _ session => exact hsame session rfl rfl
  | greeted _ _ _ _ _ _ _ _ _ _ _ _ session => exact .inr (.inl ((congrArg Session.state session).trans rfl))
  | refused _ _ _ _ _ _ _ session => exact .inr (.inr (.inr session.eqs.1))
  | authenticated _ _ _ _ _ _ _ session => exact .inr (.inr (.inl session.eqs.1))
  | left _ _ _ _ _ _ _ session => exact .inr (.inr (.inr session.eqs.1))
  | kicked _ session => exact .inr (.inr (.inr session.eqs.1))
  | served _ _ _ session => exact hsame session rfl rfl
  | toggled _ _ _ _ session => exact hsame session rfl rfl

theorem hello_plain (run : Run (serverRuns cr plat) past s) (hc : c ∈ s.conns) (hstate : c.state = .Hello) :
    c.ch.active = false := by
  have hplain := rows_run cr plat run (fun _ _ => True)
    (fun _ c => c.ch.active = false ∨ c.state = .Auth ∨ c.state = .Active ∨ c.state = .Closing)
    (fun _ _ _ _ _ _ hrow hold _ => changed_plain cr hrow.changed hold)
    (fun _ c hnew => .inl (congrArg (fun t => t.ch.active) hnew.session)) (fun _ _ => trivial) c hc
  simpa [hstate] using hplain

theorem hello_uid (cfg : ServerConfig) (c : Conn) (r : Reader) (io : Io) :
    (c.hello cr plat cfg r io).uid = c.uid := by
  have hsend : ∀ (d : Conn) (msg mask : Bytes), (d.sendMsg cr msg mask).uid = d.uid := fun d msg mask =>
    congrArg Prod.fst (sendMsg_unmoved cr d msg mask).identity
  unfold Conn.hello Conn.incompatible
  dsimp only
  cases (readClientHello r).ce with
  | none => exact hsend _ _ _
  | some ce =>
      dsimp only
      split
      · exact hsend _ _ _
      · cases keyAgreement cr cfg ce io with
        | none => rfl
        | some dh => exact hsend _ _ _

-- What the host does with a HELLO it accepts.
theorem hello_greets {m ce dh1 dh2 : Bytes} {r : Reader} {io : Io} (hfind : s.find c.uid = some c)
    (hstate : c.state = .Hello) (halive : c.dead = false) (hplain : c.ch.active = false)
    (hread : rdGetU8 (rdReaderInit m) = (RD_C_HELLO, r))
    (hversion : (readClientHello r).version = RD_PROTO_VERSION) (hce : (readClientHello r).ce = some ce)
    (hkeys : keyAgreement cr s.cfg ce io = some (dh1, dh2)) :
    ∃ c', (s.handleMessage cr plat c m io).find c.uid = some c' ∧ c'.state = .Auth ∧
      c'.sent = c.sent ++ [helloMsg s.cfg plat.osName (io.random 0) (rdX25519Base cr (io.random 1))] ∧
      c'.transcript = rdHsTranscript cr ce s.cfg.staticPub (rdX25519Base cr (io.random 1)) (io.random 0) ∧
      c'.ch = rdHsKeys cr dh1 dh2 c'.transcript true := by
  have hopen : c.openMessage cr m = (some m, c) := if_pos (by simp [hplain])
  have hput : (s.modify c.uid fun _ => c).find c.uid = some c := find_modify (fun _ _ => rfl) hfind
  refine ⟨c.hello cr plat s.cfg r io, ?_, ?_⟩
  · unfold Server.handleMessage
    rw [hopen]
    dsimp only
    rw [hread]
    dsimp only
    rw [if_pos hstate, if_neg (not_not.mpr rfl)]
    exact find_modify (fun d hd => (hello_uid cr plat s.cfg d r io).trans hd) hput
  · unfold Conn.hello
    dsimp only
    rw [hce]
    dsimp only
    rw [if_neg (not_not.mpr hversion), hkeys]
    obtain ⟨out, sendCtr, hsend⟩ := Conn.sendMsg_alive cr
      { c with
        name := (readClientHello r).name
        nonce := io.random 0
        transcript := rdHsTranscript cr ce s.cfg.staticPub (rdX25519Base cr (io.random 1)) (io.random 0) }
      (helloMsg s.cfg plat.osName (io.random 0) (rdX25519Base cr (io.random 1))) (io.mask 0 c.uid) halive
    dsimp only
    rw [hsend]
    exact ⟨rfl, rfl, rfl, rfl⟩

end Host

section Viewer

variable {cr : Crypto} {a : App}

theorem send_plain (hplain : a.ch.active = false) (hopened : a.transport.state = .Open) (msg : Bytes) :
    a.send cr msg = { a with transport := { a.transport with sent := a.transport.sent ++ [msg] } } := by
  unfold App.send AppTransport.send
  rw [if_pos (by simp [hplain]), if_neg (not_not.mpr hopened)]

theorem Dialled.sayHello (h : Dialled cr a) : ∃ name, a.sayHello cr =
    { a with
      transport := { a.transport with
        sent := a.transport.sent ++ [putU8 RD_C_HELLO ++ putU16 RD_PROTO_VERSION ++ putStr name ++ a.ce] }
      phase := .Hello } := by
  unfold App.sayHello
  rw [if_pos ⟨h.phase, h.opened⟩]
  dsimp only
  rw [send_plain h.plain h.opened]
  exact ⟨_, rfl⟩

-- What the viewer does with a HELLO it accepts.
theorem hello_answers {m dh1 dh2 : Bytes} {r : Reader} (io : AppIo) (hplain : a.ch.active = false)
    (hread : rdGetU8 (rdReaderInit m) = (RD_S_HELLO, r))
    (haccept : a.acceptHello cr (readHello r) = some (dh1, dh2)) :
    ∃ b : App, (a.handleMessage cr io m = b.sendAuth cr ∨
        a.handleMessage cr io m = { b with phase := .Verify, dialog := .Verify }) ∧
      b.transcript = rdHsTranscript cr a.ce (readHello r).ss (readHello r).se (readHello r).nonce ∧
      b.ch = rdHsKeys cr dh1 dh2 b.transcript false ∧ b.transport = a.transport ∧ b.target = a.target := by
  have hopen : a.openMessage cr m = (some m, a) := if_pos (by simp [hplain])
  have hhandle : a.handleMessage cr io m = a.onHello cr r := by
    unfold App.handleMessage App.dispatch
    rw [hopen]
    dsimp only
    rw [hread]
    exact if_pos rfl
  rw [hhandle]
  unfold App.onHello
  dsimp only
  rw [haccept]
  dsimp only
  split_ifs
  · exact ⟨_, .inl rfl, rfl, rfl, rfl, rfl⟩
  · exact ⟨_, .inl rfl, rfl, rfl, rfl, rfl⟩
  · exact ⟨{ a with
      transcript := rdHsTranscript cr a.ce (readHello r).ss (readHello r).se (readHello r).nonce
      ch := rdHsKeys cr dh1 dh2 (rdHsTranscript cr a.ce (readHello r).ss (readHello r).se (readHello r).nonce) false
      cePriv := List.replicate 32 0
      hostName := (readHello r).name
      hostOs := (readHello r).os
      hostFp := rdFingerprint cr (readHello r).ss
      verifyOldFp := a.store.knownFingerprint a.target.host a.target.port }, .inr rfl, rfl, rfl, rfl, rfl⟩

theorem Agreed.authPasses {c : Conn} (h : Agreed a c) (hcr : cr.Sound) (hkey : c.ch.recvKey.length = 32)
    {cfg : ServerConfig}
    (hopened : a.transport.state = .Open) (hpassword : a.target.password = cfg.password) :
    AuthPasses cr cfg a c := by
  have hmac : (rdHsAuthMac cr a.target.password a.transcript).length = RD_MAC_LEN := hcr.digest _
  generalize hp : putU8 RD_C_AUTH ++ rdHsAuthMac cr a.target.password a.transcript = p
  have hsent : (a.sendAuth cr).transport.sent = a.transport.sent ++ [(rdChannelSeal cr a.ch p).1] := by
    unfold App.sendAuth App.send AppTransport.send
    dsimp only
    rw [hp, if_neg (by simp [h.active.1]), if_neg (not_not.mpr hopened)]
  have hopen := rdChannelOpen_seal hcr h.sendKey (h.counters.1.trans h.counters.2.2.2.symm) hkey p
    (List.replicate (rdChannelSeal cr a.ch p).1.length 0)
  have hread : rdGetU8 (rdReaderInit p) = (RD_C_AUTH, ⟨rdHsAuthMac cr a.target.password a.transcript, false⟩) := by
    rw [← hp]
    exact rdGetU8_putU8 _ (by decide) _
  have hproof := rdGetBytes_append (rdHsAuthMac cr a.target.password a.transcript) [] RD_MAC_LEN hmac
  rw [List.append_nil] at hproof
  refine ⟨_, p, { c with ch := { c.ch with recvCtr := (c.ch.recvCtr + 1) % 2 ^ 64 } }, hsent, ?_, ?_, ?_⟩
  · unfold Conn.openMessage
    rw [if_neg (by simp [h.active.2]), hopen]
    dsimp only
    rw [if_neg (by omega)]
    simp
  · rw [hread]
  · unfold authMacOk
    rw [hread]
    dsimp only
    rw [hproof, h.transcript, hpassword]
    simp [rdCtEqual]

end Viewer

section Both

variable {σ : Type} (plat : Platform σ) {past : List (Server σ × ServerEvent σ)} {s : Server σ} {c : Conn} {a : App}

theorem hello_greeting {cr : Crypto} (hcr : cr.Sound) (hfind : s.find c.uid = some c) (hstate : c.state = .Hello)
    (halive : c.dead = false) (hplain : c.ch.active = false) (hdial : Dialled cr a) (io : Host.Io) (appIo : AppIo)
    (hrandom : io.randomOk = true) (hnonce : (io.random 0).length = RD_NONCE_LEN)
    (hstatic : s.cfg.staticPub = rdX25519Base cr s.cfg.staticPriv) (hephemeral : Commutes cr a.cePriv (io.random 1))
    (hidentity : Commutes cr a.cePriv s.cfg.staticPriv) :
    ∃ hello reply c' b, Greeting cr plat s c a io appIo hello reply c' b := by
  have hpub : (rdX25519Base cr s.cfg.staticPriv).length = 32 := hcr.point _ _
  have hss : s.cfg.staticPub.take 32 = s.cfg.staticPub := List.take_of_length_le (by rw [hstatic, hpub])
  obtain ⟨dh1, hdh1⟩ := Option.isSome_iff_exists.mp hephemeral.1
  obtain ⟨dh2, hdh2⟩ := Option.isSome_iff_exists.mp hidentity.1
  obtain ⟨name, hsay⟩ := hdial.sayHello
  -- the host
  obtain ⟨r, hread, hversion, hce⟩ := clientHello_read name a.ce (hdial.key ▸ hcr.point _ _)
  have hkeys : keyAgreement cr s.cfg a.ce io = some (dh1, dh2) := by
    rw [keyAgreement, hrandom, hdial.key, ← hephemeral.2, ← hidentity.2, hdh1, hdh2]
    rfl
  obtain ⟨c', hfound, hauth, hsent, htranscript, hch⟩ :=
    hello_greets cr plat hfind hstate halive hplain hread hversion hce hkeys
  -- the viewer
  obtain ⟨r', hread', hhello⟩ := hello_read s.cfg plat.osName (io.random 0) (rdX25519Base cr (io.random 1)) hnonce
    (by rw [hss, hstatic, hpub]) (hcr.point _ _)
  rw [hss] at hhello
  have haccept : (a.sayHello cr).acceptHello cr (readHello r') = some (dh1, dh2) := by
    rw [hsay, hhello, hstatic]
    unfold App.acceptHello
    dsimp only
    rw [if_neg (by simp), hdh1, hdh2]
  obtain ⟨b, hnext, htranscript', hch', htransport, htarget⟩ :=
    hello_answers appIo (by rw [hsay]; exact hdial.plain) hread' haccept
  have hsame : b.transcript = c'.transcript := by
    rw [htranscript', htranscript, hhello, hsay]
  have hagreed : Agreed b c' := by
    refine ⟨hsame, ?_, ?_, ?_, ?_⟩
    all_goals rw [hch', hch, hsame]
    all_goals simp [rdHsKeys]
  have hrecv : c'.ch.recvKey.length = 32 := by
    rw [hch]
    simp [rdHsKeys, hsOkm_length hcr]
  refine ⟨_, _, c', b, ?_, ?_, ⟨hfound, hauth, hsent⟩, ?_, ?_, ?_, hnext, ⟨?_, ?_⟩, hagreed, ?_⟩
  · rw [hsay]
  · rw [hread, hce]
  · rw [hread', hhello]
  · rw [hread', hhello]
  · rw [hread', hhello]
  · rw [htransport, hsay]
    exact hdial.opened
  · rw [htarget, hsay]
  · intro v hvch hvtranscript hvopened hvpassword
    have hv : Agreed v c' := by
      obtain ⟨h₁, h₂, h₃, h₄, h₅⟩ := hagreed
      exact ⟨hvtranscript.trans h₁, hvch ▸ h₂, hvch ▸ h₃, hvch ▸ h₄, hvch ▸ h₅⟩
    exact hv.authPasses hcr hrecv hvopened hvpassword

-- In every run of the host, for every viewer that has dialled.
theorem handshake_agreement (run : Run (serverRuns reference plat) past s) (hc : c ∈ s.conns)
    (hstate : c.state = .Hello)
    (halive : c.dead = false) (hdial : Dialled reference a) (io : Host.Io) (appIo : AppIo)
    (hrandom : io.randomOk = true)
    (hnonce : (io.random 0).length = RD_NONCE_LEN)
    (hstatic : s.cfg.staticPub = rdX25519Base reference s.cfg.staticPriv)
    (hephemeral : Commutes reference a.cePriv (io.random 1))
    (hidentity : Commutes reference a.cePriv s.cfg.staticPriv) :
    ∃ hello reply c' b, Greeting reference plat s c a io appIo hello reply c' b :=
  hello_greeting plat reference_sound (Lib.Table.find_row Conn.uid (tidy_run reference plat run).distinct hc)
    hstate halive
    (hello_plain reference plat run hc hstate) hdial io appIo hrandom hnonce hstatic hephemeral hidentity

end Both

-- A host whose keys are a pair, and a viewer that has dialled it.
def pairedConfig : ServerConfig :=
    { deskConfig false with staticPub := rdX25519Base reference (List.replicate 32 1) }

def pairedHost : Option (Server Desk) :=
  (Server.started deskPlatform pairedConfig 0 ⟨none, []⟩).bind fun s =>
    deskRun s [.accept (ascii "10.0.0.2") 0, .received 0 upgradeRequest 0, .http 0]

def caller : App :=
  { App.new false ⟨ascii "Ann", false, false, [], false, false, [], 0⟩ (Store.new true) with
    target := { SavedPc.new with host := ascii "desk", password := ascii "secret1" } }

theorem handshake_agreement_desk : ∃ past s c, ∃ a : App,
    Run (serverRuns reference deskPlatform) past s ∧ c ∈ s.conns ∧ c.state = .Hello ∧ c.dead = false ∧
      Dialled reference a ∧
      Commutes reference a.cePriv (deskIo.random 1) ∧ Commutes reference a.cePriv s.cfg.staticPriv ∧
      ∃ hello reply c' b, Greeting reference deskPlatform s c a deskIo ⟨0, 0, [], true⟩ hello reply c' b := by
  have hshape : pairedHost.map (fun s => s.conns.map fun c => (c.state, c.dead)) = some [(.Hello, false)] := by
    decide +kernel
  have hkeys : pairedHost.map (fun s => (s.cfg.staticPriv, s.cfg.staticPub)) =
      some (List.replicate 32 1, rdX25519Base reference (List.replicate 32 1)) := by decide +kernel
  obtain ⟨s, hs, hconns⟩ := Option.map_eq_some_iff.mp hshape
  rw [hs, Option.map_some, Option.some.injEq, Prod.mk.injEq] at hkeys
  obtain ⟨c, hc⟩ : ∃ c, s.conns = [c] := List.length_eq_one_iff.mp (by simpa using congrArg List.length hconns)
  obtain ⟨hstate, halive⟩ : c.state = .Hello ∧ c.dead = false := by simpa [hc] using hconns
  obtain ⟨s₀, h₀, hrest⟩ := Option.bind_eq_some_iff.mp hs
  obtain ⟨past, run, -⟩ := deskRun_run (.start ⟨pairedConfig, 0, ⟨none, []⟩, h₀⟩) hrest
  have hdial := startConnect_dialled reference caller (List.replicate 32 3) none [] (by decide)
  have hephemeral : Commutes reference (List.replicate 32 3) (List.replicate 32 2) := by decide +kernel
  have hidentity : Commutes reference (List.replicate 32 3) (List.replicate 32 1) := by decide +kernel
  have hmem : c ∈ s.conns := by simp [hc]
  exact ⟨_, s, c, _, run, hmem, hstate, halive, hdial, hephemeral, hkeys.1 ▸ hidentity,
    handshake_agreement deskPlatform run hmem hstate halive hdial deskIo ⟨0, 0, [], true⟩ rfl rfl
      (by rw [hkeys.1, hkeys.2])
      hephemeral (hkeys.1 ▸ hidentity)⟩

end TetherDesk
