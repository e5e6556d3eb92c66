import TetherDesk.Secure.Lengths
import TetherDesk.Secure.Pieces

namespace TetherDesk.Secure

open TetherDesk.Lib

-- What the two ends of a channel rely on.
structure Crypto.Sound (cr : Crypto) : Prop extends cr.Lengths where
  twice : ∀ input key nonce counter, key.length = 32 → nonce.length = 12 →
    cr.rdChacha20 (cr.rdChacha20 input key nonce counter) key nonce counter = input
  digest : ∀ m, (cr.rdSha256 m).length = 32
  point : ∀ scalar q, (cr.x25519 scalar q).length = 32

section Channel

variable {cr : Crypto} (h : cr.Sound) {sender receiver : Channel}
include h

theorem rdAeadOpen_seal (msg ad key nonce out : Bytes) (hkey : key.length = 32) (hnonce : nonce.length = 12) :
    rdAeadOpen cr out (rdAeadSeal cr msg ad key nonce) ad key nonce = (0, msg ++ out.drop msg.length) := by
  have hct := h.stream msg key nonce 1 hkey hnonce
  have htag := h.tag (cr.rdChacha20 msg key nonce 1) ad key nonce
  have hlen : (cr.rdChacha20 msg key nonce 1 ++ cr.aeadTag (cr.rdChacha20 msg key nonce 1) ad key nonce).length =
      msg.length + RD_TAG_LEN := by rw [List.length_append, hct, htag]
  have hcut : msg.length + RD_TAG_LEN - RD_TAG_LEN = (cr.rdChacha20 msg key nonce 1).length := by omega
  unfold rdAeadOpen rdAeadSeal
  dsimp only
  rw [hlen, if_neg (by omega), hcut, List.take_left, List.drop_left, h.twice msg key nonce 1 hkey hnonce, hct]
  simp [rdCtEqual]

-- What one end seals the other end opens, when their counters agree.
theorem rdChannelOpen_seal (hkey : sender.sendKey = receiver.recvKey) (hctr : sender.sendCtr = receiver.recvCtr)
    (hlen : receiver.recvKey.length = 32) (msg out : Bytes) :
    rdChannelOpen cr receiver (rdChannelSeal cr sender msg).1 out =
      ((msg.length : Int), msg ++ out.drop msg.length,
        { receiver with recvCtr := (receiver.recvCtr + 1) % 2 ^ 64 }) := by
  have hsealed := rdChannelSeal_length h.toLengths (hkey ▸ hlen : sender.sendKey.length = 32) msg
  have hnonce : (ctrNonce receiver.recvCtr).length = 12 := by simp [ctrNonce, le64, le32, le16]
  have hopen := rdAeadOpen_seal h msg [] receiver.recvKey (ctrNonce receiver.recvCtr) out hlen hnonce
  have hbytes : (rdChannelSeal cr sender msg).1 =
      rdAeadSeal cr msg [] receiver.recvKey (ctrNonce receiver.recvCtr) := by
    rw [rdChannelSeal, hkey, hctr]
  unfold rdChannelOpen
  rw [hsealed, if_neg (by omega), hbytes, hopen]
  simp

theorem rdHmacSha256_length (key msg : Bytes) : (rdHmacSha256 cr key msg).length = 32 := h.digest _

theorem hkdfLoop_length (prk info t : Bytes) (i : UInt8) {fuel n : Nat} (hn : n ≤ fuel) :
    (hkdfLoop cr prk info fuel n t i).length = n := by
  induction fuel generalizing n t i with
  | zero => exact (Nat.le_zero.mp hn).symm
  | succ fuel ih =>
      unfold hkdfLoop
      by_cases hdone : n = 0
      · rw [if_pos hdone, hdone]
        rfl
      · rw [if_neg hdone]
        dsimp only
        rw [List.length_append, List.length_take, rdHmacSha256_length h, ih _ _ (by split <;> omega)]
        split <;> omega

theorem hsOkm_length (dh1 dh2 th : Bytes) : (hsOkm cr dh1 dh2 th).length = 64 :=
  hkdfLoop_length h _ _ _ _ (Nat.le_refl 64)

end Channel

section Reference

-- Piece by piece, or all of it against the blocks one after the other.
theorem flatMap_pieces {f : Nat → Bytes} (hf : ∀ i, (f i).length = 64) (p : Bytes) (k : Nat) :
    ((pieces 64 p).zipIdx k).flatMap (fun (q, i) => List.zipWith (· ^^^ ·) q (f i)) =
      List.zipWith (· ^^^ ·) p ((List.range ((p.length + 63) / 64)).flatMap fun i => f (k + i)) := by
  induction hn : p.length using Nat.strongRecOn generalizing p k with
  | ind n ih =>
      by_cases hp : p = []
      · subst hp
        rw [pieces_nil]
        rfl
      have hpos := List.length_pos_iff.mpr hp
      rw [pieces_cons (by omega) hp, List.zipIdx_cons, List.flatMap_cons]
      dsimp only
      by_cases hone : p.length ≤ 64
      · have hcount : (n + 63) / 64 = 1 := by omega
        rw [hcount, List.take_of_length_le hone, List.drop_eq_nil_of_le hone, pieces_nil]
        simp
      · have hcount : (n + 63) / 64 = ((p.drop 64).length + 63) / 64 + 1 := by
          rw [List.length_drop]
          omega
        have hfirst : (p.take 64).length = (f k).length := by
          rw [hf, List.length_take]
          omega
        have hblocks : (List.range ((n + 63) / 64)).flatMap (fun i => f (k + i)) =
            f k ++ (List.range (((p.drop 64).length + 63) / 64)).flatMap fun i => f (k + 1 + i) := by
          rw [hcount, List.range_succ_eq_map, List.flatMap_cons, List.flatMap_map, Nat.add_zero]
          refine congrArg (f k ++ List.flatMap · _) (funext fun i => ?_)
          rw [Nat.succ_eq_add_one, Nat.add_assoc, Nat.add_comm 1]
        rw [ih (p.drop 64).length (by rw [List.length_drop]; omega) (p.drop 64) (k + 1) rfl, hblocks,
          ← List.zipWith_append hfirst, List.take_append_drop]

theorem zipWith_xor_twice {p s : Bytes} (h : p.length ≤ s.length) :
    List.zipWith (· ^^^ ·) (List.zipWith (· ^^^ ·) p s) s = p := by
  induction p generalizing s with
  | nil => rfl
  | cons b p ih =>
      cases s with
      | nil => simp at h
      | cons c s =>
          rw [List.zipWith_cons_cons, List.zipWith_cons_cons, ih (by simpa using h), UInt8.xor_assoc,
            UInt8.xor_self,
            UInt8.xor_zero]

theorem chacha20_twice (input key nonce : Bytes) (counter : Nat) (hkey : key.length = 32)
    (hnonce : nonce.length = 12) :
    chacha20 (chacha20 input key nonce counter) key nonce counter = input := by
  have hblock : ∀ i, (chachaBlock key nonce (counter + i)).length = 64 :=
    fun i => chachaBlock_length _ _ _ hkey hnonce
  have hstream : ∀ p : Bytes, chacha20 p key nonce counter = List.zipWith (· ^^^ ·) p
      ((List.range ((p.length + 63) / 64)).flatMap fun i => chachaBlock key nonce (counter + i)) := by
    intro p
    have hall := flatMap_pieces hblock p 0
    simpa [chacha20] using hall
  have hlen := chacha20_length input key nonce counter hkey hnonce
  rw [hstream (chacha20 input key nonce counter), hlen, hstream input]
  refine zipWith_xor_twice ?_
  rw [Chunks.length_flatMap_const _ _ 64 fun i _ => hblock i, List.length_range]
  omega

theorem roundSha256_length (k w : Nat) (st : List Nat) : (roundSha256 k w st).length = st.length := by
  unfold roundSha256
  split <;> rfl

theorem roundsSha256_length (ks ws st : List Nat) : (roundsSha256 ks ws st).length = st.length := by
  induction ks generalizing ws st with
  | nil => rfl
  | cons k ks ih => rw [roundsSha256, withList_eq, withValue_eq, ih, roundSha256_length]

theorem blocksSha256_length (ps : List Bytes) (st : List Nat) : (blocksSha256 st ps).length = st.length := by
  induction ps generalizing st with
  | nil => rfl
  | cons p ps ih =>
      rw [blocksSha256, withList_eq, ih, blockSha256, withList_eq, List.length_zipWith, roundsSha256_length,
        Nat.min_self]

theorem sha256_length (m : Bytes) : (sha256 m).length = 32 := by
  rw [sha256, Chunks.length_flatMap_const _ _ 4 fun _ _ => by simp [putBe], blocksSha256_length]
  rfl

theorem x25519_length (scalar q : Bytes) : (x25519 scalar q).length = 32 := by
  unfold x25519
  simp only [withValue_eq]
  simp [putLe]

theorem reference_sound : reference.Sound := ⟨reference_lengths, chacha20_twice, sha256_length, x25519_length⟩

end Reference

end TetherDesk.Secure
