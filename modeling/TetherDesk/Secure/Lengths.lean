import TetherDesk.Lib.Chunks
import TetherDesk.Secure.Reference
import Mathlib.Tactic

namespace TetherDesk.Secure

open TetherDesk.Lib

-- What rd_crypto.c and rd_secure.c write for keys and nonces of the right size.
structure Crypto.Lengths (cr : Crypto) : Prop where
  stream : ∀ input key nonce counter, key.length = 32 → nonce.length = 12 →
    (cr.rdChacha20 input key nonce counter).length = input.length
  tag : ∀ ct ad key nonce, (cr.aeadTag ct ad key nonce).length = RD_TAG_LEN

theorem rdChannelSeal_length {cr : Crypto} (h : cr.Lengths) {ch : Channel} (hkey : ch.sendKey.length = 32)
    (msg : Bytes) :
    (rdChannelSeal cr ch msg).1.length = msg.length + RD_TAG_LEN := by
  unfold rdChannelSeal rdAeadSeal
  dsimp only
  rw [List.length_append, h.stream _ _ _ _ hkey (by simp [ctrNonce, le64, le32, le16]), h.tag]

section Reference

theorem withValue_eq {α : Type} (n : Nat) (k : Nat → α) : withValue n k = k n := by
  cases n <;> rfl

theorem withList_eq {α : Type} (ns : List Nat) (k : List Nat → α) : withList ns k = k ns := by
  induction ns generalizing k with
  | nil => rfl
  | cons n ns ih => rw [withList, withValue_eq, ih]

theorem quarterRound_length (i j k l : Nat) (x : List Nat) : (quarterRound i j k l x).length = x.length := by
  simp only [quarterRound, withValue_eq, withList_eq, id, List.length_set]

theorem doubleRound_length (x : List Nat) : (doubleRound x).length = x.length := by
  simp only [doubleRound, List.foldl_cons, List.foldl_nil, quarterRound_length]

theorem doubleRounds_length (n : Nat) (x : List Nat) : (doubleRounds n x).length = x.length := by
  induction n generalizing x with
  | zero => rfl
  | succ n ih => rw [doubleRounds, ih, doubleRound_length]

theorem pieces_length (n : Nat) (p : Bytes) : (pieces n p).length = (p.length + n - 1) / n := by simp [pieces]

theorem chachaBlock_length (key nonce : Bytes) (counter : Nat) (hkey : key.length = 32)
    (hnonce : nonce.length = 12) :
    (chachaBlock key nonce counter).length = 64 := by
  have hkeyWords : (pieces 4 key).length = 8 := by rw [pieces_length, hkey]
  have hnonceWords : (pieces 4 nonce).length = 3 := by rw [pieces_length, hnonce]
  unfold chachaBlock
  rw [withList_eq, Chunks.length_flatMap_const _ _ 4 fun _ _ => by simp [putLe], List.length_zipWith,
    doubleRounds_length,
    Nat.min_self]
  simp only [List.length_append, List.length_map, List.length_cons, List.length_nil, hkeyWords, hnonceWords]

-- The pieces of a message are together as long as it is.
theorem sum_pieces_length (n : Nat) (hn : 0 < n) (p : Bytes) : ((pieces n p).map List.length).sum = p.length := by
  have hsum : ∀ m, ((List.range m).map fun i => ((p.drop (i * n)).take n).length).sum = min (m * n) p.length := by
    intro m
    induction m with
    | zero => simp
    | succ m ih =>
        rw [List.range_succ, List.map_append, List.sum_append, ih, List.map_singleton, List.sum_singleton,
          List.length_take,
          List.length_drop, Nat.add_mul]
        omega
  have hcover : p.length ≤ (p.length + n - 1) / n * n := by
    have := Nat.lt_div_mul_add (a := p.length + n - 1) hn
    omega
  unfold pieces
  rw [List.map_map]
  exact (hsum _).trans (Nat.min_eq_right hcover)

theorem mem_pieces_length {n : Nat} {p piece : Bytes} (h : piece ∈ pieces n p) : piece.length ≤ n := by
  obtain ⟨i, -, rfl⟩ := List.mem_map.mp h
  exact List.length_take_le _ _

theorem chacha20_length (input key nonce : Bytes) (counter : Nat) (hkey : key.length = 32)
    (hnonce : nonce.length = 12) :
    (chacha20 input key nonce counter).length = input.length := by
  have hpiece : ∀ x ∈ (pieces 64 input).zipIdx,
      (List.zipWith (· ^^^ ·) x.1 (chachaBlock key nonce (counter + x.2))).length = (List.length ∘ Prod.fst) x := by
    intro x hx
    have hshort := mem_pieces_length (List.fst_mem_of_mem_zipIdx hx)
    rw [List.length_zipWith, chachaBlock_length _ _ _ hkey hnonce]
    exact Nat.min_eq_left hshort
  unfold chacha20
  rw [List.length_flatMap]
  refine (congrArg List.sum (List.map_congr_left hpiece)).trans ?_
  rw [← List.map_map, List.zipIdx_map_fst, sum_pieces_length 64 (by omega)]

theorem reference_lengths : reference.Lengths :=
  ⟨chacha20_length, fun _ _ _ _ => by simp [reference, chachaPolyTag, poly1305, putLe, RD_TAG_LEN]⟩

end Reference

end TetherDesk.Secure
