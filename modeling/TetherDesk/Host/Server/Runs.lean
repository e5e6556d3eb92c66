import TetherDesk.Host.Server.Apply
import TetherDesk.Secure.Reference

namespace TetherDesk.Host

open TetherDesk.Net TetherDesk.Secure TetherDesk.Lib.Table TetherDesk.Lib.Transition

theorem SameSession.eqs {c c' : Conn} (h : SameSession c c') :
    c'.state = c.state ∧ c'.id = c.id ∧ c'.name = c.name ∧ c'.transcript = c.transcript ∧ c'.viewOnly = c.viewOnly ∧
      c'.uploads = c.uploads ∧ c'.everAuthed = c.everAuthed := by
  obtain ⟨sendCtr, recvCtr, h⟩ := h
  exact ⟨(congrArg Session.state h).trans rfl, (congrArg Session.id h).trans rfl,
    (congrArg Session.name h).trans rfl,
    (congrArg Session.transcript h).trans rfl, (congrArg Session.viewOnly h).trans rfl,
    (congrArg Session.uploads h).trans rfl, (congrArg Session.everAuthed h).trans rfl⟩

section

variable {σ : Type} (cr : Crypto) (plat : Platform σ) {past : List (Server σ × ServerEvent σ)} {s s' : Server σ}
  {e : ServerEvent σ}

theorem started_conns (h : ∃ cfg pool os, Server.started plat cfg pool os = some s) : s.conns = [] := by
  obtain ⟨cfg, pool, os, h⟩ := h
  unfold Server.started at h
  split at h
  · cases h
  · rw [Option.some.injEq] at h
    rw [← h]

theorem tidy_run (run : Run (serverRuns cr plat) past s) : s.Tidy := by
  refine run.invariant (fun _ s => s.Tidy) (fun s h => ?_) fun past s e t htidy hstep =>
    (apply_steps cr plat htidy hstep).tidy cr htidy
  have hconns := started_conns plat h
  exact ⟨by rw [hconns]; simp, by rw [hconns]; simp⟩

-- The one connection that is changed.
theorem find_modify {s : Server σ} {c : Conn} {u : Nat} {f : Conn → Conn} (hf : ∀ d, d.uid = u → (f d).uid = u)
    (hc : s.find u = some c) :
    (s.modify u f).find u = some (f c) := by
  have huid : c.uid = u := (find_spec hc).2
  have hkey : (fun d : Conn => decide (d.uid = u)) ∘ (fun d => if d.uid = u then f d else d) = fun d =>
    decide (d.uid = u) := by
    funext d
    rw [Function.comp_apply]
    by_cases hd : d.uid = u
    · rw [if_pos hd]
      exact decide_eq_decide.mpr (iff_of_true (hf d hd) hd)
    · rw [if_neg hd]
  unfold Server.find at hc ⊢
  unfold Server.modify
  dsimp only
  rw [List.find?_map, hkey, hc, Option.map_some, if_pos huid]

theorem remaining_subset (s : Server σ) (e : ServerEvent σ) : ∀ c ∈ s.remaining e, c ∈ s.conns := by
  intro c hc
  cases e with
  | reap io => exact (List.mem_filter.mp hc).1
  | _ => exact hc

-- A row after a step comes from a row before it, or is new.
theorem Steps.origin (h : Steps cr s e s') {c' : Conn} (hc' : c' ∈ s'.conns) :
    (∃ c ∈ s.conns, Step cr s e c c') ∨ Newcomer c' := by
  obtain ⟨rows, new, hconns, hrows, hjoins⟩ := h.rows
  rw [hconns, List.mem_append] at hc'
  rcases hc' with hc' | hc'
  · obtain ⟨c, hc, hstep⟩ := hrows.new_row hc'
    exact .inl ⟨c, remaining_subset s e c hc, hstep⟩
  · cases hjoins with
    | nobody => cases hc'
    | one c _ newcomer _ =>
        obtain rfl := List.mem_singleton.mp hc'
        exact .inr newcomer

-- The row of one connection before and after a step.
theorem Steps.row (htidy : s.Tidy) (h : Steps cr s e s') {c c' : Conn} (hc : c ∈ s.conns) (hc' : c' ∈ s'.conns)
    (huid : c'.uid = c.uid) : Step cr s e c c' := by
  obtain ⟨rows, new, hconns, hrows, hjoins⟩ := h.rows
  rw [hconns, List.mem_append] at hc'
  rcases hc' with hc' | hc'
  · obtain ⟨d, hd, hstep⟩ := hrows.new_row hc'
    have hsame : d.uid = c.uid := (congrArg Prod.fst hstep.identity).symm.trans huid
    rw [htidy.row hc d (remaining_subset s e d hd) hsame] at hstep
    exact hstep
  · cases hjoins with
    | nobody => cases hc'
    | one d hnext _ _ =>
        obtain rfl := List.mem_singleton.mp hc'
        have := htidy.used c hc
        omega

-- What the steps that meet a guard keep about a row holds of every row in a run of
-- such steps.
theorem rows_apply (run : Run (serverRuns cr plat) past s) (guard : Server σ → ServerEvent σ → Prop)
    (P : List (Server σ × ServerEvent σ) → Conn → Prop)
    (hstep : ∀ past s e t, s.Tidy → e.apply cr plat s = some t →
      ∀ c ∈ s.conns, ∀ c' ∈ t.conns, Step cr s e c c' → P past c →
      guard s e → P (past ++ [(s, e)]) c')
    (hnew : ∀ past c, Newcomer c → P past c) (hguard : ∀ p ∈ past, guard p.1 p.2) : ∀ c ∈ s.conns, P past c := by
  refine (run.guarded guard (fun past s => s.Tidy ∧ ∀ c ∈ s.conns, P past c) (fun s h => ?_) ?_ hguard).2
  · have hconns := started_conns plat h
    exact ⟨tidy_run cr plat (.start h), by rw [hconns]; simp⟩
  · rintro past s e t ⟨htidy, hold⟩ hg happly
    have hsteps := apply_steps cr plat htidy happly
    refine ⟨hsteps.tidy cr htidy, fun c' hc' => ?_⟩
    rcases hsteps.origin cr hc' with ⟨c, hc, hrow⟩ | hnewcomer
    · exact hstep past s e t htidy happly c hc c' hc' hrow (hold c hc) hg
    · exact hnew _ c' hnewcomer

theorem rows_run (run : Run (serverRuns cr plat) past s) (guard : Server σ → ServerEvent σ → Prop)
    (P : List (Server σ × ServerEvent σ) → Conn → Prop)
    (hstep : ∀ past s e, ∀ c ∈ s.conns, ∀ c', Step cr s e c c' → P past c → guard s e → P (past ++ [(s, e)]) c')
    (hnew : ∀ past c, Newcomer c → P past c) (hguard : ∀ p ∈ past, guard p.1 p.2) : ∀ c ∈ s.conns, P past c :=
  rows_apply cr plat run guard P (fun past s e _ _ _ c hc c' _ hrow => hstep past s e c hc c' hrow) hnew hguard

end

-- A host whose platform shows one frame and notes what it is asked to do.
inductive Call
  | pointer (x y : Int)
  | key (hid : Nat) (down : Bool)
  | releaseAll
  | setText (text : Bytes)
  | fopen (path : Bytes)
  | fwrite (data : Bytes)
  | fclose
  | remove (path : Bytes)
  | start (index : Int)
  deriving DecidableEq, Repr

structure Desk where
  frame : Option Frame
  calls : List Call

def Desk.note (d : Desk) (call : Call) : Desk := { d with calls := d.calls ++ [call] }

def deskPlatform : Platform Desk where
  capturer :=
    { displays := fun d => ([⟨ascii "Main", 2, 1⟩], d)
      start := fun d _ _ => (none, d)
      latest := fun d => (d.frame, d)
      currentDisplay := fun _ => 0
      supportsHighResolution := fun _ => false
      highResolution := fun _ => false
      setHighResolution := fun d _ => d }
  input :=
    { pointer := fun d x y _ _ _ => d.note (.pointer x y)
      key := fun d hid down => d.note (.key hid down)
      releaseAll := fun d => d.note .releaseAll }
  clipboard :=
    { changeCount := fun d => (0, d)
      getText := fun d => (none, d)
      setText := fun d text => d.note (.setText text) }
  files :=
    { fileExists := fun _ _ => false
      makeDirs := fun d _ => d
      readFile := fun _ _ => .absent
      fopen := fun d path => (some 0, d.note (.fopen path))
      fwrite := fun d _ data => (data.length, d.note (.fwrite data))
      fclose := fun d _ => d.note .fclose
      remove := fun d path => d.note (.remove path) }
  osName := ascii "Linux"

def basePoint : Bytes := 9 :: List.replicate 31 0

def deskConfig (viewOnly : Bool) : ServerConfig :=
  { password := ascii "secret1", viewOnly := viewOnly, allowFiles := true, maxViewers := 4, maxFps := 30
    display := 0, webRoot := [], downloadsDir := ascii "down", hostName := ascii "desk", staticPriv :=
      List.replicate 32 1
    staticPub := basePoint, relayHost := [], relayPort := 0, relayId := [], relayKey := [] }

def deskIo : Io := ⟨fun _ => 0, fun _ _ => [], fun k => List.replicate (if k = 0 then 16 else 32) 2, true, false⟩

def upgradeRequest : Bytes :=
  ascii "GET / HTTP/1.1" ++ crlf ++ ascii "Upgrade: websocket" ++ crlf ++
    ascii "Sec-WebSocket-Key: AAAAAAAAAAAAAAAAAAAAAA==" ++ crlf ++ ascii "Sec-WebSocket-Version: 13" ++ crlf ++ crlf

def clientFrame (opcode : Nat) (payload : Bytes) : Bytes :=
    rdWsWriteFrame opcode payload (some (List.replicate 4 0))

-- A viewer connects and says HELLO; its public key is the base point.
def helloEvents {σ : Type} (uid version : Nat) (name : String) : List (ServerEvent σ) :=
  [.accept (ascii "10.0.0.2") 0, .received uid upgradeRequest 0, .http uid,
    .received uid (clientFrame RD_WS_BINARY (putU8 RD_C_HELLO ++ putU16 version ++ putStr (ascii name) ++
      basePoint)) 0,
    .message uid deskIo]

-- The key and the transcript that follow from these values.
def deskKey : Bytes :=
  [113, 4, 241, 57, 252, 80, 138, 220, 73, 199, 16, 157, 92, 228, 186, 147, 123, 254, 37, 203, 31, 20, 147,
    142, 153, 253, 65, 92, 157, 20, 197, 10]

def deskTranscript : Bytes :=
  [165, 216, 3, 176, 149, 56, 239, 55, 53, 252, 55, 38, 250, 3, 134, 148, 70, 209, 3, 219, 72, 241, 11, 84,
    215, 106, 254, 73, 39, 181, 148, 48]

-- The n-th message of the viewer behind its channel.
def sealedEvents {σ : Type} (uid n : Nat) (msg : Bytes) : List (ServerEvent σ) :=
  [.received uid (clientFrame RD_WS_BINARY (rdAeadSeal reference msg [] deskKey (ctrNonce n))) 0,
    .message uid deskIo]

def loginEvents {σ : Type} (uid : Nat) (name : String) : List (ServerEvent σ) :=
  helloEvents uid RD_PROTO_VERSION name ++
    sealedEvents uid 0 (putU8 RD_C_AUTH ++ rdHsAuthMac reference (ascii "secret1") deskTranscript)

def deskRun (s : Server Desk) (es : List (ServerEvent Desk)) : Option (Server Desk) :=
  es.foldlM (fun s e => e.apply reference deskPlatform s) s

def deskHost (viewOnly : Bool) (es : List (ServerEvent Desk)) : Option (Server Desk) :=
  (Server.started deskPlatform (deskConfig viewOnly) 0 ⟨none, []⟩).bind fun s => deskRun s es

theorem deskRun_run {past : List (Server Desk × ServerEvent Desk)} {s t : Server Desk}
    {es : List (ServerEvent Desk)}
    (run : Run (serverRuns reference deskPlatform) past s) (h : deskRun s es = some t) :
    ∃ more, Run (serverRuns reference deskPlatform) (past ++ more) t ∧ more.map Prod.snd = es := by
  obtain ⟨more, hmore, hevents, -⟩ := run_foldlM _ (fun _ _ => True) (fun _ _ _ h => ⟨h, trivial⟩) es run h
  exact ⟨more, hmore, hevents⟩

theorem deskHost_run {viewOnly : Bool} {es : List (ServerEvent Desk)} {s : Server Desk}
    (h : deskHost viewOnly es = some s) :
    ∃ past, Run (serverRuns reference deskPlatform) past s ∧ past.map Prod.snd = es := by
  obtain ⟨s₀, h₀, h⟩ := Option.bind_eq_some_iff.mp h
  exact deskRun_run (.start ⟨deskConfig viewOnly, 0, ⟨none, []⟩, h₀⟩) h

-- The same as long as the steps meet a guard.
def deskHostIf (guard : Server Desk → ServerEvent Desk → Bool) (viewOnly : Bool) (es : List (ServerEvent Desk)) :
    Option (Server Desk) :=
  (Server.started deskPlatform (deskConfig viewOnly) 0 ⟨none, []⟩).bind fun s =>
    es.foldlM (fun s e => if guard s e then e.apply reference deskPlatform s else none) s

theorem deskHostIf_run {guard : Server Desk → ServerEvent Desk → Bool} {viewOnly : Bool}
    {es : List (ServerEvent Desk)}
    {s : Server Desk} (h : deskHostIf guard viewOnly es = some s) :
    ∃ past, Run (serverRuns reference deskPlatform) past s ∧ ∀ p ∈ past, guard p.1 p.2 = true := by
  obtain ⟨s₀, h₀, h⟩ := Option.bind_eq_some_iff.mp h
  have hrun : Run (serverRuns reference deskPlatform) [] s₀ := .start ⟨deskConfig viewOnly, 0, ⟨none, []⟩, h₀⟩
  have hstep : ∀ s e t, (if guard s e then e.apply reference deskPlatform s else none) = some t →
      (serverRuns reference deskPlatform).step s e t ∧ guard s e = true := by
    intro s e t ht
    by_cases hg : guard s e = true
    · rw [if_pos hg] at ht
      exact ⟨ht, hg⟩
    · rw [if_neg hg] at ht
      cases ht
  obtain ⟨more, hmore, -, -, hguard⟩ := run_foldlM _ (fun s e => guard s e = true) hstep es hrun h
  exact ⟨more, hmore, hguard⟩

end TetherDesk.Host
