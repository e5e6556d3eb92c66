import TetherDesk.Net.Http.Upgrade
import TetherDesk.Relay.Pointers

namespace TetherDesk.Relay

open TetherDesk.Net TetherDesk.Secure

section Query

-- A name and its value in the query of a target.
def param (p : Bytes × Bytes) : Bytes := p.1 ++ 61 :: p.2

def query (params : List (Bytes × Bytes)) : Bytes := [38].intercalate (params.map param)

theorem split_at {b : UInt8} {pre : Bytes} (h : b ∉ pre) (rest : Bytes) :
    (pre ++ b :: rest).takeWhile (· ≠ b) = pre ∧ (pre ++ b :: rest).dropWhile (· ≠ b) = b :: rest := by
  have hall : ∀ ch ∈ pre, decide (ch ≠ b) = true := fun ch hch => decide_eq_true fun heq => h (heq ▸ hch)
  constructor
  · rw [List.takeWhile_append_of_pos hall, List.takeWhile_cons_of_neg (by simp), List.append_nil]
  · rw [List.dropWhile_append_of_pos hall, List.dropWhile_cons_of_neg (by simp)]

-- A parameter is looked up by its name.
theorem queryParam_query {path : Bytes} {params : List (Bytes × Bytes)} (hpath : 63 ∉ path) (hne : params ≠ [])
    (hparams : ∀ p ∈ params, 38 ∉ p.1 ∧ 61 ∉ p.1 ∧ 38 ∉ p.2) (name : String) :
    queryParam (path ++ 63 :: query params) name =
      ((params.find? fun p => p.1 = ascii name).map Prod.snd).getD [] := by
  have hsplit : (query params).splitOn 38 = params.map param := by
    refine List.splitOn_intercalate 38 (fun l hl => ?_) (by simpa using hne)
    obtain ⟨p, hp, rfl⟩ := List.mem_map.mp hl
    obtain ⟨hname, -, hvalue⟩ := hparams p hp
    simp [param, hname, hvalue]
  have hfind : ∀ ps : List (Bytes × Bytes), (∀ p ∈ ps, 61 ∉ p.1) →
      (ps.map param).find? (fun kv => kv.contains 61 ∧ kv.takeWhile (· ≠ 61) = ascii name) =
        (ps.find? fun p => p.1 = ascii name).map param := by
    intro ps hps
    rw [List.find?_map]
    refine congrArg (Option.map param) (List.find?_congr fun p hp => ?_)
    have hname : (param p).takeWhile (· ≠ 61) = p.1 := (split_at (hps p hp) p.2).1
    have hcontains : (param p).contains 61 = true := by simp [param]
    rw [Function.comp_apply, hname, hcontains]
    simp
  unfold queryParam
  rw [if_neg (by simp), (split_at hpath _).2]
  dsimp only
  rw [List.drop_one, List.tail_cons, hsplit, hfind params fun p hp => (hparams p hp).2.1]
  cases hp : params.find? fun p => p.1 = ascii name with
  | none => rfl
  | some p =>
      have hname := (hparams p (List.mem_of_find?_eq_some hp)).2.1
      show ((param p).dropWhile (· ≠ 61)).drop 1 = p.2
      rw [param, (split_at hname p.2).2]
      rfl

theorem query_graphic {params : List (Bytes × Bytes)}
    (h : ∀ p ∈ params, (∀ b ∈ p.1, Graphic b) ∧ ∀ b ∈ p.2, Graphic b) :
    ∀ b ∈ query params, Graphic b := by
  have hparam : ∀ p ∈ params, ∀ b ∈ param p, Graphic b := by
    intro p hp
    refine List.forall_mem_append.mpr ⟨(h p hp).1, List.forall_mem_cons.mpr ⟨by decide, (h p hp).2⟩⟩
  have hlines : ∀ l : List Bytes, (∀ w ∈ l, ∀ b ∈ w, Graphic b) → ∀ b ∈ [38].intercalate l, Graphic b := by
    intro l
    induction l with
    | nil => simp
    | cons w rest ih =>
        intro hl
        obtain ⟨hw, hrest⟩ := List.forall_mem_cons.mp hl
        cases rest with
        | nil => simpa [List.intercalate] using hw
        | cons w' rest =>
            have hmore := ih hrest
            intro b hb
            have hsplit : b ∈ w ∨ b = 38 ∨ b ∈ [38].intercalate (w' :: rest) := by simpa [List.intercalate] using hb
            rcases hsplit with hin | rfl | hin
            · exact hw b hin
            · decide
            · exact hmore b hin
  refine hlines _ fun w hw => ?_
  obtain ⟨p, hp, rfl⟩ := List.mem_map.mp hw
  exact hparam p hp

end Query

section Request

variable {c : Conn} {path host key agent rest : Bytes}

theorem request_ask (hpath : path ≠ [] ∧ ∀ b ∈ path, Graphic b) (hhost : Inline host) (hkey : ∀ b ∈ key, Graphic b)
    (hlen : key.length < 128) (hagent : Inline agent) (hinn : c.inn = (askHead path host key agent).bytes ++ rest) :
    c.request = some (⟨ascii "GET", path, none, some key⟩, rest) := by
  have hplain : (askHead path host key agent).Plain :=
    askHead_plain (Graphic.inline hpath.2) hhost (Graphic.inline hkey) hagent
  have hfound : findSub headerEnd c.inn = some (headerBlock (askHead path host key agent).lines).length := by
    rw [hinn]
    exact hplain.found rest
  obtain ⟨k, hk⟩ : ∃ k, (headerBlock (askHead path host key agent).lines).length = k + 1 :=
    ⟨_, (Nat.succ_pred_eq_of_pos (by simp [askHead, Head.lines, headerBlock, ascii])).symm⟩
  have hread : Request.read (askHead path host key agent).front = ⟨ascii "GET", path, none, some key⟩ := by
    have hupgrade : (askHead path host key agent).field (ascii "Upgrade") = some (ascii "websocket") := rfl
    have hkeyField : (askHead path host key agent).field (ascii "Sec-WebSocket-Key") = some key := rfl
    have hfly : (askHead path host key agent).field (ascii "Fly-Client-IP") = none := rfl
    have htrue : (askHead path host key agent).field (ascii "True-Client-IP") = none := rfl
    have hforwarded : (askHead path host key agent).field (ascii "X-Forwarded-For") = none := rfl
    have hasks : (findSub (ascii "websocket")
        (cStr (((some (ascii "websocket")).getD []).map toLower))).isSome = true := by decide
    unfold Request.read forwardedIp
    rw [hplain.eol, Option.getD_some]
    dsimp only
    rw [Head.take_start, Head.drop_start, askHead_words hpath]
    dsimp only
    rw [hplain.header "Upgrade" (by decide), hupgrade, hplain.header "Sec-WebSocket-Key" (by decide), hkeyField,
      hplain.header "Fly-Client-IP" (by decide), hfly, hplain.header "True-Client-IP" (by decide), htrue,
      hplain.header "X-Forwarded-For" (by decide), hforwarded]
    simp only [Option.map_some, Option.map_none, Graphic.trimmed hkey,
      List.take_of_length_le (show key.length ≤ 128 - 1 by omega)]
    rw [show (trimBlanks (ascii "websocket")).take (64 - 1) = ascii "websocket" by decide, if_pos hasks]
    rfl
  unfold Conn.request
  rw [hfound, hk]
  dsimp only
  rw [hinn, ← hread, ← Head.take_front (askHead path host key agent) rest, rdBufConsume_eq,
    show k + 5 = k + 1 + 4 from rfl, show k + 3 = k + 1 + 2 from rfl, ← hk, Head.drop_bytes]

end Request

end TetherDesk.Relay
