import Mathlib.Data.Nat.Digits.Defs
import TetherDesk.Relay.Pointers
import TetherDesk.Secure.Reference
import TetherDesk.StaticFiles

namespace TetherDesk.Relay

open TetherDesk.Net TetherDesk.Secure

-- The http_response call that a request leads to, if one does.
def Globals.answerRequest (s : Globals) (r : Request) (io : Io) : Option Response :=
  match r.key with
  | none =>
      if r.method ≠ ascii "GET" ∧ r.method ≠ ascii "HEAD" then some (textResponse 405 "Method Not Allowed" "no")
      else if r.path = ascii "/healthz" then some (textResponse 200 "OK" "ok")
      else staticResponse s.webRoot r.target io.file
  | some _ =>
      if r.path = ascii "/host" then
        let h := (s.hosts (queryParam r.target "id")).getD ⟨[], none⟩
        if !validId (queryParam r.target "id") ∨ !validHex (queryParam r.target "key") 32 then
          some (textResponse 400 "Bad Request" "bad id")
        else if h.ctl ≠ none ∧ h.key ≠ queryParam r.target "key" then some (textResponse 409 "Conflict" "id in use")
        else none
      else if r.path = ascii "/data" then
        match s.hosts (queryParam r.target "id"), (s.tickets (queryParam r.target "ticket")).bind s.find with
        | some h, some viewer =>
            if h.key ≠ queryParam r.target "key" ∨ viewer.id ≠ queryParam r.target "id" then
              some (textResponse 403 "Forbidden" "bad ticket")
            else none
        | _, _ => some (textResponse 403 "Forbidden" "bad ticket")
      else if (ascii "/v/").isPrefixOf r.path then none
      else some (textResponse 404 "Not Found" "not found")

def Globals.answer (s : Globals) (c : Conn) (io : Io) : Option Response :=
  match c.request with
  | none =>
      if c.inn.length > 16384 then some (textResponse 431 "Request Header Fields Too Large" "too large") else none
  | some (r, rest) => (s.modify c.uid fun _ => { c with inn := rest, ip := r.ip.getD c.ip }).answerRequest r io

-- Whatever is in memory behind hdr, what the response appends to out is its header and
-- its body, and n is below sizeof hdr.
def Globals.AnswersWhole (cr : Crypto) (s : Globals) (c : Conn) (io : Io) : Prop :=
  ∀ x, s.answer c io = some x → x.header.length < hdrSize ∧
    ∀ beyond, ((s.handleHttp cr c.uid { io with beyond := beyond }).find c.uid).map Conn.out =
      some (c.out ++ (x.header ++ x.body))

-- What stands behind filename=" in the header of a download.
def downloadName (path : Bytes) : Bytes := cStr (path.drop 10 ++ ascii "\"" ++ crlf)

-- The header of a download is at least 219 bytes long, without the default
-- Cache-Control line.
def NameFits (path body : Bytes) : Prop :=
  219 + (mimeType path).length + (toString body.length).length + (downloadName path).length +
    (if ascii "Cache-Control" <:+: downloadName path then 0 else 25) < hdrSize

-- If the request is for a file under /download/, its name fits.
def Globals.DownloadFits (s : Globals) (c : Conn) (io : Io) : Prop :=
  ∀ r rest body, c.request = some (r, rest) → r.key = none → (r.method = ascii "GET" ∨ r.method = ascii "HEAD") →
    r.path ≠ ascii "/healthz" → ¬ BadPath (staticPath r.target) → ascii "/download/" <+: staticPath r.target →
    io.file (cStr (s.webRoot ++ staticPath r.target)) = .body body → NameFits (staticPath r.target) body

section Header

variable {r : Response} {path body : Bytes} {beyond : Nat → UInt8}

theorem ascii_length (text : String) : (ascii text).length = text.length := by
  unfold ascii
  rw [List.length_map, String.length_toList]

theorem header_length : r.header.length = 126 + (toString r.code).length + r.status.length + r.type.length +
    (toString r.body.length).length + (if ascii "Cache-Control" <:+: r.extra then 0 else 25) + r.extra.length := by
  have hcache : (if (findSub (ascii "Cache-Control") r.extra).isSome = true then ([] : Bytes)
      else ascii "Cache-Control: no-cache" ++ crlf).length = if ascii "Cache-Control" <:+:
        r.extra then 0 else 25 := by
    by_cases h : ascii "Cache-Control" <:+: r.extra
    · rw [if_pos (findSub_isSome.mpr h), if_pos h]
      rfl
    · rw [if_neg fun hfound => h (findSub_isSome.mp hfound), if_neg h]
      rfl
  unfold Response.header
  have hcrlf : crlf.length = 2 := rfl
  have htext : "HTTP/1.1 ".length = 9 ∧ " ".length = 1 ∧ "Server: TetherDesk-Relay".length = 24 ∧
      "Content-Type: ".length = 14 ∧ "Content-Length: ".length = 16 ∧
        "X-Content-Type-Options: nosniff".length = 31 ∧
      "Connection: close".length = 17 := by decide
  simp only [List.length_append, hcache, ascii_length, hcrlf]
  omega

theorem digits_le {n : Nat} (h : n < 2 ^ 64) : (toString n).length ≤ 20 :=
  Nat.repr_length _ _ (by decide) (h.trans (by decide))

theorem textResponse_fits (code : Nat) (status text : String)
    (h : (toString code).length + status.length + (toString (ascii text ++ [10]).length).length < 600) :
    (textResponse code status text).header.length < hdrSize := by
  have htype : (ascii "text/plain").length = 10 := rfl
  have hsize : hdrSize = 768 := rfl
  rw [header_length]
  unfold textResponse
  dsimp only
  rw [htype, List.length_nil]
  have hcache : (if ascii "Cache-Control" <:+: [] then 0 else 25) ≤ 25 := by split_ifs <;> omega
  omega

theorem mimeType_length (path : Bytes) : (mimeType path).length ≤ 24 := by
  unfold mimeType
  split
  · next m hm =>
      have hall : ∀ m ∈ mimeTypes, (ascii m.2).length ≤ 24 := by decide
      exact hall m (List.mem_of_find?_eq_some hm)
  · decide

-- The text before the name of a download.
def beforeName : Bytes :=
  ascii "Strict-Transport-Security: max-age=31536000" ++ crlf ++
    ascii "Content-Disposition: attachment; filename=\""

theorem infix_append_cons {α : Type} {ch : α} {needle pre post : List α} (h : ch ∉ needle) :
    needle <:+: pre ++ ch :: post ↔ needle <:+: pre ∨ needle <:+: post := by
  rw [List.infix_append_iff, List.infix_cons_iff]
  refine ⟨?_, fun h => h.imp_right fun h => .inl (.inr h)⟩
  -- no occurrence starts at ch or goes over it
  have hnone : ∀ l, l ⊆ needle → l <+: ch :: post → l = [] := by
    intro l hl hl'
    cases l with
    | nil => rfl
    | cons x l =>
        rw [List.cons_prefix_cons] at hl'
        exact absurd (hl (hl'.1 ▸ List.mem_cons_self)) h
  rintro (hpre | (hstart | hpost) | ⟨l₁, l₂, rfl, hl₁, hl₂⟩)
  · exact .inl hpre
  · rw [hnone _ (List.Subset.refl _) hstart]
    exact .inl List.nil_infix
  · exact .inr hpost
  · rw [hnone l₂ (List.subset_append_right l₁ l₂) hl₂, List.append_nil]
    exact .inl hl₁.isInfix

theorem cacheControl_beforeName (name : Bytes) :
    ascii "Cache-Control" <:+: beforeName ++ name ↔ ascii "Cache-Control" <:+: name := by
  have hsplit : beforeName = beforeName.dropLast ++ [34] := by decide
  have hnot : ¬ ascii "Cache-Control" <:+: beforeName.dropLast := by decide +kernel
  rw [hsplit, List.append_assoc, List.singleton_append, infix_append_cons (by decide)]
  exact or_iff_right hnot

end Header

section Static

variable {webRoot target body : Bytes} {file : Bytes → FileRead}

theorem staticResponse_download (hgood : ¬ BadPath (staticPath target))
    (hdir : ascii "/download/" <+: staticPath target)
    (hfile : file (cStr (webRoot ++ staticPath target)) = .body body) :
    staticResponse webRoot target file =
      some ⟨200, "OK", mimeType (staticPath target), body, beforeName ++ downloadName (staticPath target)⟩ := by
  have hassets : ¬ (ascii "/assets/").isPrefixOf (staticPath target) = true := by
    rw [List.isPrefixOf_iff_prefix]
    intro hassets
    have hor := List.prefix_or_prefix_of_prefix hassets hdir
    exact absurd hor (by decide)
  have hzero : (0 : UInt8) ∉ beforeName := by decide
  unfold BadPath at hgood
  unfold staticResponse
  dsimp only
  rw [if_neg hgood, hfile]
  dsimp only
  rw [if_neg hassets, if_pos (List.isPrefixOf_iff_prefix.mpr hdir)]
  unfold downloadName
  rw [← cStr_append hzero]
  unfold beforeName
  simp only [List.append_assoc]

-- Outside /download/ the header is one of a few texts, but for type and size.
theorem staticResponse_other (hgood : ¬ BadPath (staticPath target))
    (hdir : ¬ ascii "/download/" <+: staticPath target)
    (hfile : file (cStr (webRoot ++ staticPath target)) = .body body) :
    ∃ extra, staticResponse webRoot target file = some ⟨200, "OK", mimeType (staticPath target), body, extra⟩ ∧
      extra.length ≤ 83 := by
  unfold BadPath at hgood
  unfold staticResponse
  dsimp only
  rw [if_neg hgood, hfile]
  dsimp only
  rw [if_neg fun h => hdir (List.isPrefixOf_iff_prefix.mp h)]
  refine ⟨_, rfl, ?_⟩
  split_ifs
  · decide
  · decide

end Static

section Answer

variable {cr : Crypto} {s : Globals} {c : Conn} {u : Nat} {io : Io} {x : Response} {r : Request}

theorem answerRequest_some (cr : Crypto) (c : Conn) (io : Io) (h : s.answerRequest r io = some x) :
    s.handleRequest cr c r io = (false, s.respond c.uid x io) := by
  unfold Globals.answerRequest at h
  unfold Globals.handleRequest
  cases hkey : r.key with
  | none =>
      rw [hkey] at h
      dsimp only at h ⊢
      split_ifs at h ⊢ with hmethod hhealth
      · obtain rfl := Option.some.inj h
        rfl
      · obtain rfl := Option.some.inj h
        rfl
      · unfold Globals.serveStatic
        rw [h]
  | some key =>
      rw [hkey] at h
      dsimp only at h ⊢
      by_cases hhost : r.path = ascii "/host"
      · rw [if_pos hhost] at h ⊢
        unfold Globals.hostRequest
        dsimp only
        split_ifs at h ⊢ with hbad hconflict
        all_goals
          obtain rfl := Option.some.inj h
          rfl
      rw [if_neg hhost] at h ⊢
      by_cases hdata : r.path = ascii "/data"
      · rw [if_pos hdata] at h ⊢
        unfold Globals.dataRequest
        dsimp only
        cases hh : s.hosts (queryParam r.target "id") with
        | none =>
            rw [hh] at h
            obtain rfl := Option.some.inj h
            rfl
        | some host =>
            rw [hh] at h
            cases hviewer : (s.tickets (queryParam r.target "ticket")).bind s.find with
            | none =>
                rw [hviewer] at h
                obtain rfl := Option.some.inj h
                rfl
            | some viewer =>
                rw [hviewer] at h
                dsimp only at h ⊢
                split_ifs at h ⊢ with hforeign
                obtain rfl := Option.some.inj h
                rfl
      rw [if_neg hdata] at h ⊢
      split_ifs at h ⊢ with hview
      obtain rfl := Option.some.inj h
      rfl

-- Without a response the request does not use the memory behind a header.
theorem answerRequest_none (h : s.answerRequest r io = none) (beyond : Nat → UInt8) :
    s.handleRequest cr c r { io with beyond := beyond } = s.handleRequest cr c r io := by
  unfold Globals.answerRequest at h
  unfold Globals.handleRequest
  cases hkey : r.key with
  | none =>
      rw [hkey] at h
      dsimp only at h ⊢
      split_ifs at h ⊢ with hmethod hhealth
      unfold Globals.serveStatic
      rw [h]
  | some key =>
      rw [hkey] at h
      dsimp only at h ⊢
      by_cases hhost : r.path = ascii "/host"
      · rw [if_pos hhost] at h
        rw [if_pos hhost, if_pos hhost]
        unfold Globals.hostRequest
        dsimp only
        split_ifs at h ⊢ with hbad hconflict
        rfl
      rw [if_neg hhost] at h
      rw [if_neg hhost, if_neg hhost]
      by_cases hdata : r.path = ascii "/data"
      · rw [if_pos hdata] at h
        rw [if_pos hdata, if_pos hdata]
        unfold Globals.dataRequest
        dsimp only
        cases hh : s.hosts (queryParam r.target "id") with
        | none =>
            rw [hh] at h
            cases h
        | some host =>
            rw [hh] at h
            cases hviewer : (s.tickets (queryParam r.target "ticket")).bind s.find with
            | none =>
                rw [hviewer] at h
                cases h
            | some viewer =>
                rw [hviewer] at h
                dsimp only at h ⊢
                split_ifs at h ⊢ with hforeign
                rfl
      rw [if_neg hdata] at h
      rw [if_neg hdata, if_neg hdata]
      split_ifs at h ⊢ with hview
      rfl

theorem respond_out (hc : s.find u = some c) :
    ((s.respond u x io).find u).map Conn.out = some (c.out ++ x.bytes io.beyond) := by
  unfold Globals.respond
  rw [find_modify, if_pos rfl, hc]
  · rfl
  · exact fun _ h => h

theorem answer_some (cr : Crypto) (io : Io) (hc : s.find u = some c) (h : s.answer c io = some x) :
    ((s.handleHttp cr u io).find u).map Conn.out = some (c.out ++ x.bytes io.beyond) := by
  obtain rfl := find_uid hc
  unfold Globals.answer at h
  unfold Globals.handleHttp
  rw [hc]
  dsimp only
  cases hr : c.request with
  | none =>
      rw [hr] at h
      dsimp only at h ⊢
      split_ifs at h ⊢ with hlong
      obtain rfl := Option.some.inj h
      exact respond_out hc
  | some q =>
      obtain ⟨r, rest⟩ := q
      rw [hr] at h
      dsimp only at h ⊢
      rw [answerRequest_some _ _ _ h]
      dsimp only
      rw [if_neg Bool.false_ne_true]
      refine respond_out (c := { c with inn := rest, ip := r.ip.getD c.ip }) ?_
      rw [find_modify, if_pos rfl, hc]
      · rfl
      · exact fun _ _ => rfl

theorem answer_none (hc : s.find u = some c) (h : s.answer c io = none) (beyond : Nat → UInt8) :
    s.handleHttp cr u { io with beyond := beyond } = s.handleHttp cr u io := by
  obtain rfl := find_uid hc
  unfold Globals.answer at h
  unfold Globals.handleHttp
  rw [hc]
  dsimp only
  cases hr : c.request with
  | none =>
      rw [hr] at h
      dsimp only at h ⊢
      split_ifs at h ⊢ with hlong
      rfl
  | some q =>
      obtain ⟨r, rest⟩ := q
      rw [hr] at h
      dsimp only at h ⊢
      rw [answerRequest_none h]

end Answer

section Fits

variable {cr : Crypto} {s : Globals} {c : Conn} {io : Io} {x : Response} {r : Request} {webRoot target body : Bytes}
  {file : Bytes → FileRead}

theorem download_fits_iff (hgood : ¬ BadPath (staticPath target)) (hdir : ascii "/download/" <+: staticPath target)
    (hfile : file (cStr (webRoot ++ staticPath target)) = .body body) :
    (∀ x, staticResponse webRoot target file = some x → x.header.length < hdrSize) ↔
      NameFits (staticPath target) body := by
  have hcode : (toString 200).length = 3 ∧ "OK".length = 2 ∧ beforeName.length = 88 := by decide
  rw [staticResponse_download hgood hdir hfile]
  simp only [Option.some.injEq, forall_eq']
  rw [header_length]
  dsimp only
  rw [List.length_append]
  simp only [cacheControl_beforeName]
  unfold NameFits
  omega

theorem static_fits (hsize : ∀ p body, file p = .body body → body.length < 2 ^ 64)
    (hname : ∀ body, ¬ BadPath (staticPath target) → ascii "/download/" <+: staticPath target →
      file (cStr (webRoot ++ staticPath target)) = .body body → NameFits (staticPath target) body)
    (h : staticResponse webRoot target file = some x) : x.header.length < hdrSize := by
  by_cases hgood : BadPath (staticPath target)
  · rw [staticResponse_bad hgood] at h
    obtain rfl := Option.some.inj h
    exact textResponse_fits _ _ _ (by decide)
  cases hfile : file (cStr (webRoot ++ staticPath target)) with
  | absent =>
      rw [staticResponse_absent hgood hfile] at h
      obtain rfl := Option.some.inj h
      exact textResponse_fits _ _ _ (by decide)
  | throws =>
      rw [staticResponse_throws hgood hfile] at h
      cases h
  | body body =>
      by_cases hdir : ascii "/download/" <+: staticPath target
      · exact (download_fits_iff hgood hdir hfile).mpr (hname body hgood hdir hfile) x h
      · obtain ⟨extra, hextra, hlength⟩ := staticResponse_other hgood hdir hfile
        obtain rfl := Option.some.inj (hextra.symm.trans h)
        have hcode : (toString 200).length = 3 ∧ "OK".length = 2 ∧ hdrSize = 768 := by decide
        have htype := mimeType_length (staticPath target)
        have hdigits := digits_le (hsize _ body hfile)
        have hcache : (if ascii "Cache-Control" <:+: extra then 0 else 25) ≤ 25 := by split_ifs <;> omega
        rw [header_length]
        dsimp only
        omega

theorem answer_fits (hsize : ∀ p body, io.file p = .body body → body.length < 2 ^ 64) (hfits : s.DownloadFits c io)
    (h : s.answer c io = some x) : x.header.length < hdrSize := by
  unfold Globals.answer at h
  cases hr : c.request with
  | none =>
      rw [hr] at h
      dsimp only at h
      split_ifs at h with hlong
      obtain rfl := Option.some.inj h
      exact textResponse_fits _ _ _ (by decide)
  | some q =>
      obtain ⟨r, rest⟩ := q
      rw [hr] at h
      unfold Globals.answerRequest at h
      dsimp only at h
      cases hkey : r.key with
      | none =>
          rw [hkey] at h
          dsimp only at h
          split_ifs at h with hmethod hhealth
          · obtain rfl := Option.some.inj h
            exact textResponse_fits _ _ _ (by decide)
          · obtain rfl := Option.some.inj h
            exact textResponse_fits _ _ _ (by decide)
          · have hget : r.method = ascii "GET" ∨ r.method = ascii "HEAD" := by
              rwa [not_and_or, not_not, not_not] at hmethod
            exact static_fits hsize (fun body hgood hdir hfile => hfits r rest body hr hkey hget hhealth hgood
              hdir hfile) h
      | some key =>
          -- every response is one of the fixed texts
          rw [hkey] at h
          dsimp only at h
          have hfixed : x ∈ [textResponse 400 "Bad Request" "bad id", textResponse 409 "Conflict" "id in use",
              textResponse 403 "Forbidden" "bad ticket", textResponse 404 "Not Found" "not found"] := by
            split at h
            · split_ifs at h <;> (obtain rfl := Option.some.inj h; simp)
            · split at h
              · split at h
                · split_ifs at h
                  obtain rfl := Option.some.inj h
                  simp
                · obtain rfl := Option.some.inj h
                  simp
              · split_ifs at h
                obtain rfl := Option.some.inj h
                simp
          rcases List.mem_cons.mp hfixed with rfl | hfixed
          · exact textResponse_fits _ _ _ (by decide)
          rcases List.mem_cons.mp hfixed with rfl | hfixed
          · exact textResponse_fits _ _ _ (by decide)
          rcases List.mem_cons.mp hfixed with rfl | hfixed
          · exact textResponse_fits _ _ _ (by decide)
          · obtain rfl := List.mem_singleton.mp hfixed
            exact textResponse_fits _ _ _ (by decide)

theorem respond_steady (u : Nat) (hlength : x.header.length < hdrSize) (beyond : Nat → UInt8) :
    s.respond u x { io with beyond := beyond } = s.respond u x io := by
  unfold Globals.respond Response.bytes hdrBytes
  rw [if_pos hlength, if_pos hlength]

theorem answer_steady (h : s.answer c io = some x) (hc : s.find c.uid = some c)
    (hlength : x.header.length < hdrSize)
    (beyond : Nat → UInt8) : s.handleHttp cr c.uid { io with beyond := beyond } = s.handleHttp cr c.uid io := by
  unfold Globals.answer at h
  unfold Globals.handleHttp
  rw [hc]
  dsimp only
  cases hr : c.request with
  | none =>
      rw [hr] at h
      dsimp only at h ⊢
      split_ifs at h ⊢ with hlong
      obtain rfl := Option.some.inj h
      exact respond_steady _ hlength beyond
  | some q =>
      obtain ⟨r, rest⟩ := q
      rw [hr] at h
      dsimp only at h ⊢
      rw [answerRequest_some cr _ io h, answerRequest_some cr _ { io with beyond := beyond } h]
      dsimp only
      rw [if_neg Bool.false_ne_true, if_neg Bool.false_ne_true]
      exact respond_steady _ hlength beyond

theorem downloadFits_of_answersWhole (h : s.AnswersWhole cr c io) : s.DownloadFits c io := by
  intro r rest body hr hkey hget hhealth hgood hdir hfile
  have hmethod : ¬ (r.method ≠ ascii "GET" ∧ r.method ≠ ascii "HEAD") := by
    rwa [not_and_or, not_not, not_not]
  have hanswer : s.answer c io = staticResponse s.webRoot r.target io.file := by
    unfold Globals.answer Globals.answerRequest
    rw [hr]
    dsimp only
    rw [hkey]
    dsimp only
    rw [if_neg hmethod, if_neg hhealth]
    rfl
  exact (download_fits_iff hgood hdir hfile).mp fun x hx => (h x (hanswer.trans hx)).1

end Fits

-- A request is answered with its header and body and nothing else exactly when it is
-- not for a download whose name is too long for the buffer; a std::string's size is a
-- size_t.
theorem http_responses_whole (cr : Crypto) (s : Globals) (c : Conn) (io : Io) (hc : s.find c.uid = some c)
    (hsize : ∀ p body, io.file p = .body body → body.length < 2 ^ 64) :
    (s.AnswersWhole cr c io ↔ s.DownloadFits c io) ∧
    (s.DownloadFits c io → ∀ beyond, s.handleHttp cr c.uid { io with beyond := beyond } =
      s.handleHttp cr c.uid io) := by
  refine ⟨⟨downloadFits_of_answersWhole, fun hfits x hx => ?_⟩, fun hfits beyond => ?_⟩
  · have hlength := answer_fits hsize hfits hx
    refine ⟨hlength, fun beyond => ?_⟩
    rw [answer_some cr { io with beyond := beyond } hc hx]
    unfold Response.bytes hdrBytes
    rw [if_pos hlength]
  · cases hx : s.answer c io with
    | none => exact answer_none hc hx beyond
    | some x =>
        have hlength := answer_fits hsize hfits hx
        exact answer_steady hx hc hlength beyond

section Download

-- A web root with one download, served by a file system that takes repeated '/' as one.
def collapse (p : Bytes) : Bytes := p.foldr (fun ch q => if ch = 47 ∧ q.head? = some 47 then q else ch :: q) []

def publicIo : Io :=
  { quietIo with file := fun p =>
      if p.length < 4096 ∧ collapse p = ascii "public/download/app.zip" then .body (ascii "PK") else .absent }

def visitor (target : Bytes) : Conn :=
  { Conn.fresh 0 with inn := ascii "GET " ++ target ++ ascii " HTTP/1.1" ++ crlf ++ crlf }

def site (target : Bytes) : Globals := { Globals.started (ascii "public") with conns := [visitor target] }

theorem publicIo_body (p body : Bytes) (h : publicIo.file p = .body body) : body = ascii "PK" := by
  unfold publicIo at h
  dsimp only at h
  split_ifs at h
  exact (FileRead.body.inj h).symm

theorem publicIo_size (p body : Bytes) (h : publicIo.file p = .body body) : body.length < 2 ^ 64 := by
  rw [publicIo_body p body h]
  decide

-- /download/, n more '/' and app.zip.
def slashedTarget (n : Nat) : Bytes := ascii "/download/" ++ List.replicate n 47 ++ ascii "app.zip"

instance (path body : Bytes) : Decidable (NameFits path body) := inferInstanceAs (Decidable (_ < _))

-- With 488 of them the header takes all the bytes that there is room for.
theorem http_responses_whole_healthz :
    (site (ascii "/healthz")).AnswersWhole reference (visitor (ascii "/healthz")) publicIo ∧
      (site (slashedTarget 488)).AnswersWhole reference (visitor (slashedTarget 488)) publicIo ∧
      ((site (slashedTarget 488)).answer (visitor (slashedTarget 488)) publicIo).map
        (fun x => x.header.length) = some (hdrSize - 1) := by
  refine ⟨?_, ?_, by decide +kernel⟩
  · refine (http_responses_whole reference (site (ascii "/healthz")) (visitor (ascii "/healthz")) publicIo rfl
      publicIo_size).1.mpr ?_
    intro r rest body hr _ _ hhealth
    have hpath : (visitor (ascii "/healthz")).request.all (fun q => q.1.path = ascii "/healthz") = true := by decide
    rw [hr, Option.all_some, decide_eq_true_eq] at hpath
    exact absurd hpath hhealth
  · refine (http_responses_whole reference (site (slashedTarget 488)) (visitor (slashedTarget 488)) publicIo
      rfl publicIo_size).1.mpr ?_
    intro r rest body hr _ _ _ _ _ hfile
    have hfits : (visitor (slashedTarget 488)).request.all
        (fun q => NameFits (staticPath q.1.target) (ascii "PK")) = true := by
      decide +kernel
    rw [hr, Option.all_some, decide_eq_true_eq] at hfits
    rw [publicIo_body _ _ hfile]
    exact hfits

-- With six hundred the header is cut, and what is behind its buffer is sent.
theorem download_header_overrun :
    ¬ (site (slashedTarget 600)).AnswersWhole reference (visitor (slashedTarget 600)) publicIo := by
  intro h
  have hlong : (((site (slashedTarget 600)).answer (visitor (slashedTarget 600)) publicIo).map fun x =>
      x.header.length) = some 879 := by
    decide +kernel
  obtain ⟨x, hx, hlength⟩ := Option.map_eq_some_iff.mp hlong
  have hshort := (h x hx).1
  rw [hlength] at hshort
  exact absurd hshort (by decide)

end Download

end TetherDesk.Relay
