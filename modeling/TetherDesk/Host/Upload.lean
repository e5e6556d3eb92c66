import TetherDesk.Host.Server

namespace TetherDesk.Host

open TetherDesk.Secure

-- The part behind the last byte that satisfies p, the whole without one.
def afterLast (p : UInt8 → Bool) (s : Bytes) : Bytes := (s.reverse.takeWhile fun ch => !p ch).reverse

-- Strip directories and characters that are unsafe on common file systems.
def safeName (rawName : Bytes) : Bytes :=
  let name := afterLast (fun ch => ch = 47 ∨ ch = 92) rawName
  let safe := name.filter fun ch => 32 ≤ ch ∧ ch ∉ ascii "<>:\"|?*"
  let safe := safe.dropWhile fun ch => ch = 46 ∨ ch = 32
  let safe := if safe = [] then ascii "upload.bin" else safe
  if safe.length > 120 then safe.drop (safe.length - 120) else safe

-- The name around its last dot, unless that is its first character.
def splitExt (safe : Bytes) : Bytes × Bytes :=
  let tail := afterLast (· = 46) safe
  let dot := safe.length - tail.length - 1
  if tail.length < safe.length ∧ dot > 0 then (safe.take dot, safe.drop dot) else (safe, [])

def numberedPath (dir base ext : Bytes) (i : Nat) : Bytes :=
  dir ++ ascii "/" ++ base ++ ascii " (" ++ decimal i ++ ascii ")" ++ ext

-- The loop from number i on, at most fuel rounds.
def freePath (fileExists : Bytes → Bool) (dir base ext : Bytes) : Nat → Nat → Bytes → Bytes
  | 0, _, path => path
  | fuel + 1, i, path =>
      if fileExists path then freePath fileExists dir base ext fuel (i + 1) (numberedPath dir base ext i) else path

def uploadPath (fileExists : Bytes → Bool) (dir safe : Bytes) : Bytes :=
  freePath fileExists dir (splitExt safe).1 (splitExt safe).2 999 1 (dir ++ ascii "/" ++ safe)

-- The map is ordered by id.
def insertUpload (id : Nat) (u : Upload) : List (Nat × Upload) → List (Nat × Upload)
  | [] => [(id, u)]
  | v :: rest => if id < v.1 then (id, u) :: v :: rest else v :: insertUpload id u rest

def Conn.upload (c : Conn) (id : Nat) : Option Upload := (c.uploads.find? fun u => u.1 = id).map Prod.snd

def Conn.setUploads (c : Conn) (uploads : List (Nat × Upload)) : Conn := { c with uploads := uploads }

def Conn.received (c : Conn) (id received : Nat) : Conn :=
  c.setUploads (c.uploads.map fun u => if u.1 = id then (u.1, { u.2 with received := received }) else u)

def Conn.eraseUpload (c : Conn) (id : Nat) : Conn := c.setUploads (c.uploads.filter fun u => u.1 ≠ id)

def fileResultMsg (id : Nat) (ok : Bool) (text : Bytes) : Bytes :=
  putU8 RD_S_FILE_RESULT ++ putU32 id ++ putU8 (if ok then 1 else 0) ++ putStr text

section Transfers

variable {σ : Type} (cr : Crypto) (plat : Platform σ) (s : Server σ) (c : Conn)

def Server.beginUpload (id size : Nat) (rawName mask : Bytes) : Server σ :=
  let reject (s : Server σ) (why : String) := s.sendTo cr c.uid (fileResultMsg id false (ascii why)) mask
  if !s.cfg.allowFiles then reject s "File transfer is disabled on this host"
  else if c.viewOnly then reject s "View-only viewers can't send files"
  else if size > RD_MAX_FILE_SIZE then reject s "File too large"
  else if c.uploads.length ≥ 4 ∨ (c.upload id).isSome then reject s "Too many transfers at once"
  else
    let safe := safeName rawName
    let s := { s with os := plat.files.makeDirs s.os s.cfg.downloadsDir }
    let path := uploadPath (plat.files.fileExists s.os) s.cfg.downloadsDir safe
    match plat.files.fopen s.os path with
    | (none, os) => reject { s with os := os } "Host could not create the file"
    | (some file, os) =>
        let s := { s with os := os }.modify c.uid fun c =>
          c.setUploads (insertUpload id ⟨file, size, 0, path⟩ c.uploads)
        { s with out := s.out ++ [.sending c.name safe size] }

def Server.finishUpload (id : Nat) (ok : Bool) (text mask : Bytes) : Server σ :=
  match c.upload id with
  | none => s
  | some u =>
      let os := plat.files.fclose s.os u.file
      let os := if !ok then plat.files.remove os u.path else os
      let s := { s with os := os }.log (ascii "upload from " ++ c.name ++ ascii " " ++
        ascii (if ok then "finished" else "failed") ++ ascii ": " ++ text)
      (s.modify c.uid fun c => c.eraseUpload id).sendTo cr c.uid (fileResultMsg id ok text) mask

-- FILE_CHUNK.
def Server.uploadChunk (r : Reader) (mask : Bytes) : Server σ :=
  let (id, r) := rdGetU32 r
  if r.err then s
  else
    match c.upload id with
    | none => s
    | some u =>
        let n := rdRemaining r
        let data := (rdGetBytes r n).1.getD []
        if add64 u.received n > u.size then
          s.finishUpload cr plat c id false (ascii "File is larger than announced") mask
        else
          let (written, os) := if n ≠ 0 then plat.files.fwrite s.os u.file data else (0, s.os)
          let s := { s with os := os }
          if written ≠ n then s.finishUpload cr plat c id false (ascii "Host disk write failed") mask
          else s.modify c.uid fun c => c.received id (add64 u.received n)

-- FILE_END.
def Server.uploadEnd (r : Reader) (mask : Bytes) : Server σ :=
  let (id, r) := rdGetU32 r
  if r.err then s
  else
    match c.upload id with
    | none => s
    | some u =>
        if u.received ≠ u.size then s.finishUpload cr plat c id false (ascii "Transfer incomplete") mask
        else s.finishUpload cr plat c id true (ascii "Saved to " ++ u.path) mask

end Transfers

end TetherDesk.Host
