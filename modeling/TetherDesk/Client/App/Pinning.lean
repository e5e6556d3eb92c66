import TetherDesk.Client.App.Steps
import TetherDesk.Secure.Reference

namespace TetherDesk.Client

open TetherDesk.Secure TetherDesk.Lib TetherDesk.Lib.Transition

-- What the pins promise for one message: send_auth is called only for the pinned key,
-- or for any key when none is pinned and trust_new_hosts is set; no pin is replaced.
structure PinsRespected (cr : Crypto) (a : App) (io : AppIo) (m : Bytes) : Prop where
  auth : (a.handleMessage cr io m).authCalls ≠ a.authCalls → ∃ h, a.helloIn cr m = some h ∧
    (a.pinned = rdFingerprint cr h.ss ∨ a.pinned = [] ∧ a.opts.trustNewHosts = true)
  pins : ∀ key fp, a.store.known.lookup key = some fp → fp ≠ [] →
    (a.handleMessage cr io m).store.known.lookup key = some fp

-- trust_new_hosts is set and the host's key is not the one pinned.
def PinOverridden (cr : Crypto) (a : App) (m : Bytes) : Prop :=
  a.opts.trustNewHosts = true ∧ a.pinned ≠ [] ∧
    ∃ h, a.helloIn cr m = some h ∧ a.pinned ≠ rdFingerprint cr h.ss

theorem trust_pins (s : Store) (host fp : Bytes) (port : Int32) (h : s.knownFingerprint host port = [])
    (key old : Bytes) (hold : s.known.lookup key = some old) (hne : old ≠ []) :
    (s.trust host port fp).known.lookup key = some old := by
  have hkey : key ≠ keyFor host port := by
    rintro rfl
    rw [Store.knownFingerprint, hold] at h
    exact hne h
  simp only [Store.trust]
  rw [SortedMap.lookup_insert, if_neg hkey, hold]

theorem pinsRespected_iff (cr : Crypto) (a : App) (io : AppIo) (m : Bytes) (hnative : a.web = false) :
    PinsRespected cr a io m ↔ ¬ PinOverridden cr a m := by
  obtain ⟨hnone, hkeeps⟩ | ⟨h, hhello, hout⟩ := handleMessage_cases cr a io m
  · constructor
    · rintro - ⟨-, -, h, hh, -⟩
      rw [hnone] at hh
      cases hh
    intro _
    exact ⟨fun hcalls => absurd hkeeps.authCalls hcalls, fun key fp hold _ => by rw [hkeeps.known, hold]⟩
  · cases hout with
    | refused reject =>
        unfold App.helloIn at hhello
        split at hhello
        · cases hhello
        · dsimp only at hhello
          split_ifs at hhello with hacc
          obtain rfl := Option.some.inj hhello
          rw [reject] at hacc
          cases hacc.2
    | asking _ untrusted known view phase active authSent authCalls =>
        refine ⟨fun _ hover => untrusted (.inr (.inl hover.1)), fun _ => ?_⟩
        exact ⟨fun hcalls => absurd authCalls hcalls, fun key fp hold _ => by rw [known, hold]⟩
    | authenticating _ trusted known view phase active authSent authCalls =>
        have hpins : ∀ key fp, a.store.known.lookup key = some fp → fp ≠ [] →
            (a.handleMessage cr io m).store.known.lookup key = some fp := by
          intro key fp hold hne
          rcases known with hsame | ⟨-, hnew, hstore⟩
          · rw [hsame, hold]
          · rw [hstore]
            exact trust_pins a.store a.target.host _ a.target.port hnew key fp hold hne
        constructor
        · rintro ⟨hauth, -⟩ ⟨-, hpinned, h', hh', hne⟩
          obtain ⟨h'', hh'', hok⟩ := hauth (by omega)
          rw [hh'] at hh''
          obtain rfl := Option.some.inj hh''
          exact hok.elim hne fun hok => hpinned hok.1
        · intro hnot
          refine ⟨fun _ => ⟨h, hhello, ?_⟩, hpins⟩
          rcases trusted with hweb | htrust | hsame
          · rw [hnative] at hweb
            cases hweb
          · by_cases hsame : a.pinned = rdFingerprint cr h.ss
            · exact .inl hsame
            · refine .inr ⟨?_, htrust⟩
              by_contra hpinned
              exact hnot ⟨htrust, hpinned, h, hhello, hsame⟩
          · exact .inl hsame

-- Exactly when no accepted HELLO brings a key other than the pinned one under
-- trust_new_hosts, handling a message respects the pins. Besides messages only the
-- trust button sends the proof or pins a key.
theorem identity_pinning (cr : Crypto) :
    (∀ (a : App) (io : AppIo) (m : Bytes), a.web = false → (PinsRespected cr a io m ↔ ¬ PinOverridden cr a m)) ∧
    ∀ (a : App) (e : AppEvent), (∀ io m, e ≠ .message io m) → e ≠ .trust →
      (e.apply cr a).authCalls = a.authCalls ∧ (e.apply cr a).store.known = a.store.known := by
  refine ⟨fun a io m hnative => pinsRespected_iff cr a io m hnative, fun a e hmessage htrust => ?_⟩
  have h := apply_steady cr a e hmessage htrust
  exact ⟨h.authCalls, h.known⟩

-- A viewer with trust_new_hosts set and a pin for the computer it connects to.
def trustingOptions : Options := ⟨ascii "Ann", false, true, [], false, false, [], 0⟩

def deskPc : SavedPc := { SavedPc.new with host := ascii "desk", password := ascii "secret1" }

def pinning (fp : Bytes) : Store := (Store.new true).trust deskPc.host deskPc.port fp

def basePoint : Bytes := 9 :: List.replicate 31 0

def deskHello : Bytes :=
  putU8 RD_S_HELLO ++ putU16 RD_PROTO_VERSION ++ putU8 RD_AUTH_X25519_CHACHA ++ List.replicate 16 7 ++
    putStr (ascii "desk") ++ putStr (ascii "Linux") ++ basePoint ++ basePoint

def connectEvents : List AppEvent := [.start deskPc (List.replicate 32 1) none, .network .Open [], .sayHello]

def helloSent (fp : Bytes) : App :=
  connectEvents.foldl (fun a e => e.apply reference a) (App.new false trustingOptions (pinning fp))

theorem helloSent_run (fp : Bytes) : Run (appRuns reference)
    (history (fun a e => e.apply reference a) (App.new false trustingOptions (pinning fp)) connectEvents)
      (helloSent fp) :=
  run_events _ _ ⟨false, trustingOptions, pinning fp, rfl⟩ connectEvents

theorem identity_pinning_same_key :
    let a := helloSent (rdFingerprint reference basePoint)
    (a.handleMessage reference ⟨0, 0, [], true⟩ deskHello).authCalls = 1 ∧
      PinsRespected reference a ⟨0, 0, [], true⟩ deskHello := by
  intro a
  have hhello : (a.helloIn reference deskHello).map HelloMsg.ss = some basePoint := by decide +kernel
  refine ⟨by decide +kernel, ((identity_pinning reference).1 a _ deskHello rfl).mpr ?_⟩
  rintro ⟨-, -, h, hh, hne⟩
  rw [hh] at hhello
  refine hne ?_
  rw [Option.some.inj hhello]
  decide +kernel

theorem trust_new_hosts_overrides_pin :
    ¬ ∀ (past : List (App × AppEvent)) (a : App), Run (appRuns reference) past a → a.web = false →
      ∀ io m, PinsRespected reference a io m := by
  intro halways
  have hrespected := halways _ _ (helloSent_run (ascii "pin")) rfl ⟨0, 0, [], true⟩ deskHello
  have hhello : ((helloSent (ascii "pin")).helloIn reference deskHello).isSome = true := by decide +kernel
  have hpin : (helloSent (ascii "pin")).pinned = ascii "pin" := by decide
  obtain ⟨h, hh⟩ := Option.isSome_iff_exists.mp hhello
  refine (pinsRespected_iff reference _ _ deskHello rfl).mp hrespected ⟨rfl, ?_, h, hh, ?_⟩
  · rw [hpin]
    decide
  · rw [hpin]
    intro hsame
    have hlength := congrArg List.length hsame
    rw [rdFingerprint_length] at hlength
    exact absurd hlength (by decide)

end TetherDesk.Client
