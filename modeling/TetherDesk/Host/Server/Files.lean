import TetherDesk.Host.Server.Step
import TetherDesk.Lib.Stdio

namespace TetherDesk.Host

open TetherDesk.Net TetherDesk.Secure TetherDesk.Lib.Stdio TetherDesk.Lib.Transition

-- What the host relies on: the calls of stdio do what they document, and no other
-- call touches a file. view is what there is of files and streams, and closes tells
-- whether fclose reports success.
structure HostFiles {σ : Type} (plat : Platform σ) where
  view : σ → Storage Bytes UInt8
  closes : σ → Nat → Bool
  fileExists : ∀ os p, (view os).disk p ≠ none → plat.files.fileExists os p = true
  makeDirs : ∀ os p, view (plat.files.makeDirs os p) = view os
  fopen : ∀ os p f, (plat.files.fopen os p).1 = some f → Opened (view os) f p (view (plat.files.fopen os p).2)
  fopen_none : ∀ os p, (plat.files.fopen os p).1 = none → view (plat.files.fopen os p).2 = view os
  fwrite : ∀ os f data, Wrote (view os) f data (plat.files.fwrite os f data).1
    (view (plat.files.fwrite os f data).2)
  fclose : ∀ os f, Closed (view os) f (closes os f) (view (plat.files.fclose os f))
  remove : ∀ os p, Removed (view os) p (view (plat.files.remove os p))
  displays : ∀ os, view (plat.capturer.displays os).2 = view os
  start : ∀ os index fps, view (plat.capturer.start os index fps).2 = view os
  latest : ∀ os, view (plat.capturer.latest os).2 = view os
  setHighResolution : ∀ os on, view (plat.capturer.setHighResolution os on) = view os
  pointer : ∀ os x y buttons wx wy, view (plat.input.pointer os x y buttons wx wy) = view os
  key : ∀ os hid down, view (plat.input.key os hid down) = view os
  releaseAll : ∀ os, view (plat.input.releaseAll os) = view os
  changeCount : ∀ os, view (plat.clipboard.changeCount os).2 = view os
  getText : ∀ os, view (plat.clipboard.getText os).2 = view os
  setText : ∀ os text, view (plat.clipboard.setText os text) = view os

-- The messages of a file transfer.
inductive FileMessage
  | start (id size : Nat) (name : Bytes)
  | chunk (id : Nat) (data : Bytes)
  | finish (id : Nat)
  deriving DecidableEq, Repr

def FileMessage.id : FileMessage → Nat
  | .start id _ _ => id
  | .chunk id _ => id
  | .finish id => id

-- FILE_BEGIN, FILE_CHUNK and FILE_END behind their type byte.
def fileMessage (type : Nat) (r : Reader) : Option FileMessage :=
  if type = RD_C_FILE_BEGIN then
    let (id, r) := rdGetU32 r
    let (size, r) := rdGetU64 r
    let (name, r) := rdGetStr r 1024
    if r.err then none else some (.start id size (cStr name))
  else if type = RD_C_FILE_CHUNK then
    let (id, r) := rdGetU32 r
    if r.err then none else some (.chunk id ((rdGetBytes r (rdRemaining r)).1.getD []))
  else if type = RD_C_FILE_END then
    let (id, r) := rdGetU32 r
    if r.err then none else some (.finish id)
  else none

section

variable {σ : Type} (cr : Crypto) (plat : Platform σ) (s : Server σ)

-- The message of a transfer that an event brings, and whose it is.
def Server.fileMessageIn : ServerEvent σ → Option (Conn × FileMessage)
  | .message uid _ =>
      match s.find uid with
      | none => none
      | some c => if c.live then ((c.messageIn cr).bind fun m => fileMessage m.1 m.2).map fun m => (c, m) else none
  | _ => none

-- Where begin_upload opens a file, if it does.
def Server.opensAt (c : Conn) (id size : Nat) (name : Bytes) : Option Bytes :=
  if !s.cfg.allowFiles ∨ c.viewOnly ∨ size > RD_MAX_FILE_SIZE ∨ c.uploads.length ≥ 4 ∨
    (c.upload id).isSome then none
  else
    let os := plat.files.makeDirs s.os s.cfg.downloadsDir
    let path := uploadPath (plat.files.fileExists os) s.cfg.downloadsDir (safeName name)
    (plat.files.fopen os path).1.map fun _ => path

-- What the messages of the viewers say about their transfers: the size announced, and
-- the payloads of the chunks since.
def Server.ledgerAfter (e : ServerEvent σ) (l : Nat × Nat → Nat × Bytes) : Nat × Nat → Nat × Bytes :=
  match s.fileMessageIn cr e with
  | some (c, .start id size _) => if (c.upload id).isSome then l else Function.update l (c.uid, id) (size, [])
  | some (c, .chunk id data) => Function.update l (c.uid, id) ((l (c.uid, id)).1, (l (c.uid, id)).2 ++ data)
  | _ => l

def ledger (past : List (Server σ × ServerEvent σ)) : Nat × Nat → Nat × Bytes :=
  past.foldl (fun l p => p.1.ledgerAfter cr p.2 l) fun _ => (0, [])

theorem ledger_next (past : List (Server σ × ServerEvent σ)) (e : ServerEvent σ) :
    ledger cr (past ++ [(s, e)]) = s.ledgerAfter cr e (ledger cr past) := by
  unfold ledger
  rw [List.foldl_append]
  rfl

end

-- A FILE_RESULT that reports success.
def fileSaved (m : Bytes) : Bool := byteAt m 0 = UInt8.ofNat RD_S_FILE_RESULT ∧ byteAt m 5 = 1

-- What a row has to do with transfers: the open ones, the reports of success so far,
-- and the longest message its viewer may send.
structure Holding where
  uid : Nat
  uploads : List (Nat × Upload)
  saved : List Bytes
  limit : Nat

def Conn.holding (c : Conn) : Holding := ⟨c.uid, c.uploads, c.sent.filter fileSaved, c.ws.maxMessage⟩

def Server.holdings {σ : Type} (s : Server σ) : List Holding := s.conns.map Conn.holding

-- The open transfers of all connections.
def Server.Held {σ : Type} (s : Server σ) (uid id : Nat) (u : Upload) : Prop :=
  ∃ h ∈ s.holdings, h.uid = uid ∧ (id, u) ∈ h.uploads

-- A step that has nothing to do with files.
structure Kept {σ : Type} {plat : Platform σ} (fs : HostFiles plat) (s s' : Server σ) : Prop where
  rows : s'.holdings = s.holdings
  view : fs.view s'.os = fs.view s.os

end TetherDesk.Host
