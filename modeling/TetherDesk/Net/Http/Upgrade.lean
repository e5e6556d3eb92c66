import TetherDesk.Net.Http.Head

namespace TetherDesk.Net

open TetherDesk.Secure

-- A byte that ends neither a word nor a line.
def Graphic (b : UInt8) : Prop := 32 < b ∧ b < 127

instance (b : UInt8) : Decidable (Graphic b) := inferInstanceAs (Decidable (_ ∧ _))

section Graphic

variable {s : Bytes}

theorem Graphic.inline (h : ∀ b ∈ s, Graphic b) : Inline s := by
  have hnot : ∀ b, ¬ Graphic b → b ∉ s := fun b hb hin => hb (h b hin)
  exact ⟨hnot 13 (by decide), hnot 10 (by decide), hnot 0 (by decide)⟩

theorem Graphic.of_all (h : (s.all fun b => decide (Graphic b)) = true) : ∀ b ∈ s, Graphic b :=
  fun b hb => of_decide_eq_true (List.all_eq_true.mp h b hb)

theorem Graphic.not_blank {b : UInt8} (h : Graphic b) : isBlank b = false := by
  unfold isBlank
  rw [decide_eq_false_iff_not]
  rintro (rfl | rfl)
  · exact absurd h (by decide)
  · exact absurd h (by decide)

theorem Graphic.not_space {b : UInt8} (h : Graphic b) : isSpace b = false := by
  have hlow : (32 : UInt8).toNat < b.toNat := h.1
  unfold isSpace
  rw [decide_eq_false_iff_not]
  rintro (rfl | ⟨-, hb⟩)
  · exact absurd h (by decide)
  · have hhigh : b.toNat ≤ (13 : UInt8).toNat := hb
    change 32 < b.toNat at hlow
    change b.toNat ≤ 13 at hhigh
    omega

theorem Graphic.trimmed (h : ∀ b ∈ s, Graphic b) : trimBlanks s = s :=
    trimBlanks_self fun b hb => (h b hb).not_blank

end Graphic

section Base64

theorem base64Digit_graphic (v : Nat) : Graphic (base64Digit v) := by
  have hall : ∀ b ∈ ascii "ABCDEFGHIJKLMNOPQRSTUVWXYZabcdefghijklmnopqrstuvwxyz0123456789+/", Graphic b :=
    Graphic.of_all (by decide)
  have hin : v % 64 < (ascii "ABCDEFGHIJKLMNOPQRSTUVWXYZabcdefghijklmnopqrstuvwxyz0123456789+/").length :=
    Nat.mod_lt v (by decide)
  unfold base64Digit byteAt
  rw [List.getD_eq_getElem _ _ hin]
  exact hall _ (List.getElem_mem hin)

theorem rdBase64_graphic (s : Bytes) : ∀ b ∈ rdBase64 s, Graphic b := by
  have hpad : Graphic 61 := by decide
  fun_induction rdBase64 s with
  | case1 => simp
  | case2 a v => simp [base64Digit_graphic, hpad]
  | case3 a b v => simp [base64Digit_graphic, hpad]
  | case4 a b c rest v ih => simpa [base64Digit_graphic] using ih

theorem rdBase64_length (s : Bytes) : (rdBase64 s).length = (s.length + 2) / 3 * 4 := by
  fun_induction rdBase64 s with
  | case1 => rfl
  | case2 a v => simp
  | case3 a b v => simp
  | case4 a b c rest v ih =>
      simp only [List.length_cons, ih]
      omega

end Base64

-- A request to go on with WebSocket frames, and its acceptance.
def askHead (path host key agent : Bytes) : Head :=
  ⟨ascii "GET " ++ path ++ ascii " HTTP/1.1",
    [(ascii "Host", host), (ascii "Upgrade", ascii "websocket"), (ascii "Connection", ascii "Upgrade"),
      (ascii "Sec-WebSocket-Key", key), (ascii "Sec-WebSocket-Version", ascii "13"), (ascii "User-Agent", agent)]⟩

def upgradeHead (accept : Bytes) : Head :=
  ⟨ascii "HTTP/1.1 101 Switching Protocols",
    [(ascii "Upgrade", ascii "websocket"), (ascii "Connection", ascii "Upgrade"),
      (ascii "Sec-WebSocket-Accept", accept)]⟩

section Ask

variable {path host key agent : Bytes}

theorem askHead_bytes : (askHead path host key agent).bytes =
    ascii "GET " ++ path ++ ascii " HTTP/1.1" ++ crlf ++ ascii "Host: " ++ host ++ crlf ++
      ascii "Upgrade: websocket" ++ crlf ++
      ascii "Connection: Upgrade" ++ crlf ++ ascii "Sec-WebSocket-Key: " ++ key ++ crlf ++
      ascii "Sec-WebSocket-Version: 13" ++ crlf ++ (ascii "User-Agent: " ++ agent) ++ crlf ++ crlf := by
  have hhost : fieldLine (ascii "Host", host) = ascii "Host: " ++ host := rfl
  have hupgrade : fieldLine (ascii "Upgrade", ascii "websocket") = ascii "Upgrade: websocket" := rfl
  have hconnection : fieldLine (ascii "Connection", ascii "Upgrade") = ascii "Connection: Upgrade" := rfl
  have hkey : fieldLine (ascii "Sec-WebSocket-Key", key) = ascii "Sec-WebSocket-Key: " ++ key := rfl
  have hversion : fieldLine (ascii "Sec-WebSocket-Version", ascii "13") = ascii "Sec-WebSocket-Version: 13" := rfl
  have hagent : fieldLine (ascii "User-Agent", agent) = ascii "User-Agent: " ++ agent := rfl
  simp only [Head.bytes, Head.lines, askHead, headerBlock, List.map_cons, List.map_nil, hhost, hupgrade,
    hconnection, hkey,
    hversion, hagent, List.append_assoc]

theorem askHead_plain (hpath : Inline path) (hhost : Inline host) (hkey : Inline key) (hagent : Inline agent) :
    (askHead path host key agent).Plain := by
  obtain ⟨hcr, hlf, hnul⟩ := hpath
  refine ⟨⟨by simp [askHead, ascii], ?_, ?_, ?_⟩, ?_, ?_⟩
  · simpa [askHead, hcr] using by decide
  · simpa [askHead, hlf] using by decide
  · simpa [askHead, hnul] using by decide
  · simp only [askHead, List.forall_mem_cons]
    decide
  · simp only [askHead, List.forall_mem_cons, hhost, hkey, hagent, true_and]
    decide

theorem askHead_words (hpath : path ≠ [] ∧ ∀ b ∈ path, Graphic b) :
    firstWords (askHead path host key agent).start = (ascii "GET", path) := by
  have hword : ∀ w rest : Bytes, (∀ b ∈ w, Graphic b) → (w ++ 32 :: rest).takeWhile (fun c => !isSpace c) = w := by
    intro w rest hw
    rw [List.takeWhile_append_of_pos fun b hb => by simp [(hw b hb).not_space],
      List.takeWhile_cons_of_neg (by decide),
      List.append_nil]
  have hstart : ∀ w rest : Bytes, w ≠ [] → (∀ b ∈ w, Graphic b) → (w ++ rest).dropWhile isSpace = w ++ rest := by
    intro w rest hne hw
    obtain ⟨b, w, rfl⟩ := List.exists_cons_of_ne_nil hne
    rw [List.cons_append, List.dropWhile_cons_of_neg (by simp [(hw b List.mem_cons_self).not_space])]
  have hget : ∀ b ∈ ascii "GET", Graphic b := Graphic.of_all (by decide)
  have hline : (askHead path host key agent).start = ascii "GET" ++ 32 :: (path ++ 32 :: ascii "HTTP/1.1") := by
    simp only [askHead, List.append_assoc]
    rfl
  unfold firstWords
  dsimp only
  rw [hline, hstart _ _ (by decide) hget, hword _ _ hget, List.drop_left, List.dropWhile_cons_of_pos (by decide),
    hstart _ _ hpath.1 hpath.2, hword _ _ hpath.2]

end Ask

section Accept

variable {accept : Bytes}

theorem upgradeHead_bytes : (upgradeHead accept).bytes =
    ascii "HTTP/1.1 101 Switching Protocols" ++ crlf ++ ascii "Upgrade: websocket" ++ crlf ++
      ascii "Connection: Upgrade" ++
      crlf ++ ascii "Sec-WebSocket-Accept: " ++ accept ++ crlf ++ crlf := by
  have hupgrade : fieldLine (ascii "Upgrade", ascii "websocket") = ascii "Upgrade: websocket" := rfl
  have hconnection : fieldLine (ascii "Connection", ascii "Upgrade") = ascii "Connection: Upgrade" := rfl
  have haccept : fieldLine (ascii "Sec-WebSocket-Accept", accept) = ascii "Sec-WebSocket-Accept: " ++ accept := rfl
  simp only [Head.bytes, Head.lines, upgradeHead, headerBlock, List.map_cons, List.map_nil, hupgrade,
    hconnection, haccept,
    List.append_assoc]

theorem upgradeHead_plain (haccept : Inline accept) : (upgradeHead accept).Plain := by
  refine ⟨?_, ?_, ?_⟩
  · show ascii "HTTP/1.1 101 Switching Protocols" ≠ [] ∧ Inline (ascii "HTTP/1.1 101 Switching Protocols")
    decide
  · simp only [upgradeHead, List.forall_mem_cons]
    decide
  · simp only [upgradeHead, List.forall_mem_cons, haccept, true_and]
    decide

theorem upgradeHead_switching (accept : Bytes) : (upgradeHead accept).front.take 12 = ascii "HTTP/1.1 101" := by
  have hstart : (upgradeHead accept).start = ascii "HTTP/1.1 101 Switching Protocols" := rfl
  rw [Head.front_eq, hstart, List.take_append_of_le_length (by decide)]
  decide

-- The key that rd_ws_accept_key writes is read back whole.
theorem upgradeHead_accept (hgraphic : ∀ b ∈ accept, Graphic b) (hlen : accept.length < 64) :
    rdHttpHeader (headerBlock ((upgradeHead accept).fields.map fieldLine ++ [[]])) "Sec-WebSocket-Accept" 64 =
      some accept := by
  have hfield : (upgradeHead accept).field (ascii "Sec-WebSocket-Accept") = some accept := rfl
  rw [(upgradeHead_plain (Graphic.inline hgraphic)).header _ (by decide), hfield, Option.map_some,
    Graphic.trimmed hgraphic,
    List.take_of_length_le (by omega)]

end Accept

theorem rdWsAcceptKey_length {cr : Crypto} (hsha : ∀ m, (cr.rdSha1 m).length = 20) (key : Bytes) :
    (rdWsAcceptKey cr key).length = 28 := by
  rw [rdWsAcceptKey, rdBase64_length, hsha]

end TetherDesk.Net
