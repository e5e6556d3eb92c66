import TetherDesk.Net.Ws
import Mathlib.Tactic

namespace TetherDesk.Net

-- A frame on the wire; the payload is what the sender means.
structure Fragment where
  fin : Bool
  opcode : Nat
  mask : Option Bytes
  payload : Bytes
  deriving DecidableEq, Repr

def Fragment.first (f : Fragment) : UInt8 := UInt8.ofNat ((if f.fin then 0x80 else 0) ||| f.opcode)

def Fragment.bytes (f : Fragment) : Bytes :=
  f.first ::
    match f.mask with
    | none => wsLength 0 f.payload.length ++ f.payload
    | some key => wsLength 0x80 f.payload.length ++ key ++ maskBytes key f.payload

-- Clients mask their frames, servers do not.
def Fragment.Keyed (f : Fragment) (masked : Bool) : Prop := f.mask.isSome = masked ∧ ∀ key ∈ f.mask, key.length = 4

theorem rdWsWriteFrame_bytes (opcode : Nat) (payload : Bytes) (mask : Option Bytes) (h : opcode < 16) :
    rdWsWriteFrame opcode payload mask = Fragment.bytes ⟨true, opcode, mask, payload⟩ := by
  have hopcode : opcode &&& 0x0F = opcode := by
    rw [Nat.and_two_pow_sub_one_eq_mod opcode 4]
    exact Nat.mod_eq_of_lt h
  unfold rdWsWriteFrame Fragment.bytes wsFirst Fragment.first
  rw [hopcode]
  cases mask <;> rfl

section Header

theorem first_bits (fin : Bool) (opcode : Nat) (h : opcode < 16) :
    UInt8.ofNat ((if fin then 0x80 else 0) ||| opcode) &&& 0x70 = 0 ∧
      (UInt8.ofNat ((if fin then 0x80 else 0) ||| opcode) &&& 0x0F).toNat = opcode ∧
      decide (UInt8.ofNat ((if fin then 0x80 else 0) ||| opcode) &&& 0x80 ≠ 0) = fin := by
  have hall : ∀ fin : Bool, ∀ opcode : Fin 16,
      UInt8.ofNat ((if fin then 0x80 else 0) ||| opcode.val) &&& 0x70 = 0 ∧
        (UInt8.ofNat ((if fin then 0x80 else 0) ||| opcode.val) &&& 0x0F).toNat = opcode.val ∧
        decide (UInt8.ofNat ((if fin then 0x80 else 0) ||| opcode.val) &&& 0x80 ≠ 0) = fin := by
    decide
  exact hall fin ⟨opcode, h⟩

theorem length_bits (masked : Bool) (len : Nat) (h : len < 128) :
    (UInt8.ofNat ((if masked then 0x80 else 0) ||| len) &&& 0x7F).toNat = len ∧
      decide (UInt8.ofNat ((if masked then 0x80 else 0) ||| len) &&& 0x80 ≠ 0) = masked := by
  have hall : ∀ masked : Bool, ∀ len : Fin 128,
      (UInt8.ofNat ((if masked then 0x80 else 0) ||| len.val) &&& 0x7F).toNat = len.val ∧
        decide (UInt8.ofNat ((if masked then 0x80 else 0) ||| len.val) &&& 0x80 ≠ 0) = masked := by
    decide
  exact hall masked ⟨len, h⟩

theorem be_be16 (v : Nat) (h : v < 2 ^ 16) : be (be16 v) = v := by
  unfold be be16
  rw [List.foldl_cons, List.foldl_cons, List.foldl_nil, UInt8.toNat_ofNat', UInt8.toNat_ofNat',
    Nat.shiftRight_eq_div_pow]
  omega

theorem be_be64 (v : Nat) (h : v < 2 ^ 64) : be (be64 v) = v := by
  have hbytes : be64 v = [UInt8.ofNat (v >>> 56), UInt8.ofNat (v >>> 48), UInt8.ofNat (v >>> 40),
      UInt8.ofNat (v >>> 32),
      UInt8.ofNat (v >>> 24), UInt8.ofNat (v >>> 16), UInt8.ofNat (v >>> 8), UInt8.ofNat v] := rfl
  rw [hbytes]
  unfold be
  simp only [List.foldl_cons, List.foldl_nil, UInt8.toNat_ofNat', Nat.shiftRight_eq_div_pow]
  omega

theorem be64_length (v : Nat) : (be64 v).length = 8 := rfl

variable (r : WsReader) (first : UInt8) (tail : Bytes)

-- The header up to the length, whichever of its three encodings that takes.
theorem wsParse_length (hrsv : first &&& 0x70 = 0) (len : Nat) (h : len < 2 ^ 64) :
    wsParse r (first :: (wsLength (if r.expectMasked then 0x80 else 0) len ++ tail)) =
      wsPayload r (first :: (wsLength (if r.expectMasked then 0x80 else 0) len ++ tail))
        (1 + (wsLength (if r.expectMasked then 0x80 else 0) len).length) len := by
  have hparse : ∀ (code : Nat) (more : Bytes), code < 128 →
      wsParse r (first :: (UInt8.ofNat ((if r.expectMasked then 0x80 else 0) ||| code) :: more)) =
        let inn := first :: UInt8.ofNat ((if r.expectMasked then 0x80 else 0) ||| code) :: more
        if code = 126 then
          if inn.length < 4 then .more else wsPayload r inn 4 (be ((inn.drop 2).take 2))
        else if code = 127 then
          if inn.length < 10 then .more else wsPayload r inn 10 (be ((inn.drop 2).take 8))
        else wsPayload r inn 2 code := by
    intro code more hcode
    obtain ⟨hlen, hmask⟩ := length_bits r.expectMasked code hcode
    generalize UInt8.ofNat ((if r.expectMasked then 0x80 else 0) ||| code) = second at hlen hmask ⊢
    have hfirst : byteAt (first :: second :: more) 0 = first := rfl
    have hsecond : byteAt (first :: second :: more) 1 = second := rfl
    unfold wsParse
    dsimp only
    rw [hfirst, hsecond, hlen, if_neg (by simp), if_neg (by simp [hrsv]), if_neg (by simp [← hmask])]
  unfold wsLength
  by_cases hsmall : len < 126
  · simp only [if_pos hsmall]
    rw [List.cons_append, hparse len _ (by omega)]
    dsimp only
    rw [if_neg (by omega), if_neg (by omega)]
    rfl
  by_cases hmiddle : len ≤ 0xFFFF
  · simp only [if_neg hsmall, if_pos hmiddle]
    rw [List.cons_append, hparse 126 _ (by omega)]
    dsimp only
    have htake : (List.drop 2 (first :: UInt8.ofNat ((if r.expectMasked then 0x80 else 0) ||| 126) ::
        (be16 len ++ tail))).take 2 =
        be16 len := rfl
    rw [if_pos rfl, if_neg (by simp [be16]), htake, be_be16 len (by omega)]
    rfl
  · simp only [if_neg hsmall, if_neg hmiddle]
    rw [List.cons_append, hparse 127 _ (by omega)]
    dsimp only
    have htake : (List.drop 2 (first :: UInt8.ofNat ((if r.expectMasked then 0x80 else 0) ||| 127) ::
        (be64 len ++ tail))).take 8 =
        be64 len := List.take_left' (be64_length len)
    rw [if_neg (by decide), if_pos rfl, if_neg (by simp [be64_length]), htake, be_be64 len h]
    rfl

end Header

section Payload

theorem maskBytes_length (key p : Bytes) : (maskBytes key p).length = p.length := by simp [maskBytes]

theorem maskBytes_maskBytes (key p : Bytes) : maskBytes key (maskBytes key p) = p := by
  unfold maskBytes
  rw [List.mapIdx_mapIdx]
  refine List.ext_getElem (by simp) fun i _ _ => ?_
  rw [List.getElem_mapIdx]
  dsimp only [Function.comp]
  rw [UInt8.xor_assoc, UInt8.xor_self, UInt8.xor_zero]

-- What follows the header of a frame.
def Fragment.body (f : Fragment) : Bytes :=
  match f.mask with
  | none => f.payload
  | some key => key ++ maskBytes key f.payload

theorem bytes_eq (f : Fragment) {masked : Bool} (h : f.mask.isSome = masked) :
    f.bytes = f.first :: wsLength (if masked then 0x80 else 0) f.payload.length ++ f.body := by
  unfold Fragment.bytes Fragment.body
  cases hmask : f.mask <;> rw [hmask] at h <;> simp [← h]

theorem wsPayload_bytes (r : WsReader) (head rest : Bytes) (f : Fragment) (hkeyed : f.Keyed r.expectMasked)
    (hsize : f.payload.length ≤ r.maxMessage)
    (hfin : decide (byteAt (head ++ f.body ++ rest) 0 &&& 0x80 ≠ 0) = f.fin)
    (hopcode : (byteAt (head ++ f.body ++ rest) 0 &&& 0x0F).toNat = f.opcode) :
    wsPayload r (head ++ f.body ++ rest) head.length f.payload.length =
      .frame ⟨f.fin, f.opcode, f.payload, (head ++ f.body).length⟩ := by
  obtain ⟨hmask, hkey⟩ := hkeyed
  have hdrop : (head ++ f.body ++ rest).drop head.length = f.body ++ rest := by
    rw [List.append_assoc, List.drop_left]
  unfold wsPayload
  dsimp only
  rw [if_neg (by omega), hfin, hopcode]
  unfold Fragment.body at *
  cases hm : f.mask with
  | none =>
      rw [hm] at hmask hdrop
      dsimp only at hdrop ⊢
      rw [if_neg (by simp [← hmask]), if_neg (by simp only [List.length_append]; omega), hdrop, List.take_left]
      simp
  | some key =>
      rw [hm] at hmask hdrop
      have hlen : key.length = 4 := hkey key hm
      dsimp only at hdrop ⊢
      have hmasked : r.expectMasked = true := hmask.symm
      have hfound : ((head ++ (key ++ maskBytes key f.payload) ++ rest).drop head.length).take 4 = key := by
        rw [hdrop, List.append_assoc, ← hlen, List.take_left]
      have hbody : ((head ++ (key ++ maskBytes key f.payload) ++ rest).drop (head.length + 4)).take
          f.payload.length =
          maskBytes key f.payload := by
        rw [← List.drop_drop, hdrop, List.append_assoc, ← hlen, List.drop_left,
          ← maskBytes_length key f.payload, List.take_left]
      rw [if_pos hmasked, if_neg (by simp only [List.length_append]; omega),
        if_neg (by simp only [List.length_append, maskBytes_length]; omega), hbody, hfound, maskBytes_maskBytes]
      simp only [List.length_append, maskBytes_length]
      rw [Nat.add_assoc, hlen]

theorem wsParse_bytes (r : WsReader) (f : Fragment) (rest : Bytes) (hopcode : f.opcode < 16)
    (hkeyed : f.Keyed r.expectMasked)
    (hsize : f.payload.length ≤ r.maxMessage) (h64 : f.payload.length < 2 ^ 64) :
    wsParse r (f.bytes ++ rest) = .frame ⟨f.fin, f.opcode, f.payload, f.bytes.length⟩ := by
  obtain ⟨hrsv, hop, hfin⟩ := first_bits f.fin f.opcode hopcode
  rw [bytes_eq f hkeyed.1]
  generalize hheader : f.first :: wsLength (if r.expectMasked then 0x80 else 0) f.payload.length = header
  have hparse := wsParse_length r f.first (f.body ++ rest) hrsv f.payload.length h64
  have hfirst : byteAt (header ++ f.body ++ rest) 0 = f.first := by
    rw [← hheader]
    rfl
  rw [← List.cons_append, hheader, ← List.append_assoc] at hparse
  have hlen : 1 + (wsLength (if r.expectMasked then 0x80 else 0) f.payload.length).length = header.length := by
    rw [← hheader, List.length_cons, Nat.add_comm]
  rw [hparse, hlen]
  exact wsPayload_bytes r header rest f hkeyed hsize (hfirst ▸ hfin) (hfirst ▸ hop)

end Payload

section Limit

theorem wsAssemble_limit {r r' : WsReader} {f : WsFrame} (h : wsAssemble r f = some r') :
    r'.maxMessage = r.maxMessage ∧ r'.assembly.length ≤ r.maxMessage := by
  have happended : ∀ r₁ : WsReader, r₁.maxMessage = r.maxMessage →
      (if r₁.assembly.length + f.payload.length > r₁.maxMessage then none
        else some { r₁ with assembly := r₁.assembly ++ f.payload }) = some r' →
      r'.maxMessage = r.maxMessage ∧ r'.assembly.length ≤ r.maxMessage := by
    intro r₁ hlimit hr'
    split at hr'
    · cases hr'
    · next hsize =>
        rw [← Option.some.inj hr', ← hlimit]
        exact ⟨rfl, by simpa using hsize⟩
  unfold wsAssemble at h
  dsimp only at h
  by_cases hcont : f.opcode = RD_WS_CONT
  · rw [if_pos hcont] at h
    cases hop : r.assemblyOpcode with
    | none =>
        rw [hop] at h
        cases h
    | some op =>
        rw [hop] at h
        exact happended r rfl h
  rw [if_neg hcont] at h
  by_cases hdata : f.opcode ≠ RD_WS_BINARY ∧ f.opcode ≠ RD_WS_TEXT
  · rw [if_pos hdata] at h
    cases h
  rw [if_neg hdata] at h
  cases hop : r.assemblyOpcode with
  | none =>
      rw [hop] at h
      exact happended { r with assemblyOpcode := some f.opcode, assembly := [] } rfl h
  | some op =>
      rw [hop] at h
      cases h

theorem wsAssemble_role {r r' : WsReader} {f : WsFrame} (h : wsAssemble r f = some r') :
    r'.expectMasked = r.expectMasked := by
  unfold wsAssemble at h
  dsimp only at h
  split at h
  · cases h
  · next hstarted =>
      split at h
      · cases h
      · rw [← Option.some.inj h]
        dsimp only
        split at hstarted
        · split at hstarted
          · cases hstarted
          · rw [← Option.some.inj hstarted]
        · split at hstarted
          · cases hstarted
          · split at hstarted
            · cases hstarted
            · rw [← Option.some.inj hstarted]

theorem wsNextLoop_limit (fuel : Nat) (r : WsReader) (inn : Bytes) :
    (wsNextLoop fuel r inn).2.1.maxMessage = r.maxMessage ∧
      ∀ m, (wsNextLoop fuel r inn).1 = .got m → m.opcode = RD_WS_BINARY → m.data.length ≤ r.maxMessage := by
  induction fuel generalizing r inn with
  | zero => exact ⟨rfl, fun m h => by cases h⟩
  | succ fuel ih =>
      unfold wsNextLoop
      generalize wsParse r inn = parse
      cases parse with
      | more => exact ⟨rfl, fun m h => by cases h⟩
      | error => exact ⟨rfl, fun m h => by cases h⟩
      | frame f =>
          dsimp only
          by_cases hcontrol : f.opcode ≥ 0x8
          · rw [if_pos hcontrol]
            split
            · exact ⟨rfl, fun m h => by cases h⟩
            · refine ⟨rfl, fun m h hbinary => ?_⟩
              rw [← WsNext.got.inj h] at hbinary
              rw [show f.opcode = RD_WS_BINARY from hbinary] at hcontrol
              exact absurd hcontrol (by decide)
          rw [if_neg hcontrol]
          cases hassembled : wsAssemble r f with
          | none => exact ⟨rfl, fun m h => by cases h⟩
          | some r' =>
              obtain ⟨hlimit, hsize⟩ := wsAssemble_limit hassembled
              dsimp only
              split
              · refine ⟨hlimit, fun m h _ => ?_⟩
                rw [← WsNext.got.inj h]
                exact hsize
              · rw [← hlimit]
                exact ih r' (rdBufConsume inn f.size)

theorem wsNextLoop_role (fuel : Nat) (r : WsReader) (inn : Bytes) :
    (wsNextLoop fuel r inn).2.1.expectMasked = r.expectMasked := by
  induction fuel generalizing r inn with
  | zero => rfl
  | succ fuel ih =>
      unfold wsNextLoop
      generalize wsParse r inn = parse
      cases parse with
      | more => rfl
      | error => rfl
      | frame f =>
          dsimp only
          split
          · split <;> rfl
          cases hassembled : wsAssemble r f with
          | none => rfl
          | some r' =>
              have hrole := wsAssemble_role hassembled
              dsimp only
              split
              · exact hrole
              · exact (ih r' (rdBufConsume inn f.size)).trans hrole

end Limit

end TetherDesk.Net
