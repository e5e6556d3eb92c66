import TetherDesk.Host.Encoder.Theorems
import TetherDesk.Codec.Tile.Worst

namespace TetherDesk.Host

open TetherDesk.Codec TetherDesk.Lib

section Sums

theorem sum_grid (f : Nat → Nat → Nat) (a b : Nat) :
    ∑ k ∈ Finset.range (a * b), f (k % a) (k / a) = ∑ j ∈ Finset.range b, ∑ i ∈ Finset.range a, f i j := by
  induction b with
  | zero => rfl
  | succ b ih =>
      rw [Nat.mul_add, Nat.mul_one, Finset.sum_range_add, ih, Finset.sum_range_succ]
      congr 1
      refine Finset.sum_congr rfl fun i hi => ?_
      rw [Finset.mem_range] at hi
      rw [Nat.mul_add_mod, Nat.mod_eq_of_lt hi, Nat.mul_add_div (by omega), Nat.div_eq_of_lt hi, Nat.add_zero]

-- The pieces a side is cut into add up to it.
theorem sum_pieces (n side : Nat) : ∑ i ∈ Finset.range n, min RD_TILE (side - i * RD_TILE) =
    min (n * RD_TILE) side := by
  induction n with
  | zero => simp
  | succ n ih =>
      rw [Finset.sum_range_succ, ih, rd_tile]
      omega

theorem sum_areas (width height : Nat) :
    ∑ k ∈ Finset.range (tileTotal width height), (tileRect width height k).w * (tileRect width height k).h =
      width * height := by
  have hgrid := sum_grid (fun i j => min RD_TILE (width - i * RD_TILE) * min RD_TILE (height - j * RD_TILE))
    (tilesX width) (tilesY height)
  have hx : min (tilesX width * RD_TILE) width = width := by
    rw [tilesX, rd_tile]
    omega
  have hy : min (tilesY height * RD_TILE) height = height := by
    rw [tilesY, rd_tile]
    omega
  calc _ = ∑ j ∈ Finset.range (tilesY height), ∑ i ∈ Finset.range (tilesX width),
        min RD_TILE (width - i * RD_TILE) * min RD_TILE (height - j * RD_TILE) := hgrid
    _ = width * height := by
        simp only [← Finset.sum_mul, ← Finset.mul_sum]
        rw [sum_pieces, sum_pieces, hx, hy]

end Sums

theorem tileRecord_length (f : Frame) (k q : Nat) :
    (tileRecord f k q).length =
      13 + (rdEncodeTile (f.pixels.drop (f.srcAt k)) f.stride (f.rect k).w (f.rect k).h q).2.length := by
  simp [tileRecord_eq, putU16, putU8, putU32, le16, le32]
  omega

section Full

variable (f : Frame) (quality : Nat) (budget : Int)

-- A full update looks at no shadow.
theorem fullTiles_scratch (items : List (Nat × Nat)) (e e' : Encoding) (h : e.scratch = e'.scratch) :
    (items.foldl (fun e p => encodeTile f true quality budget e p.1 p.2) e).scratch =
      (items.foldl (fun e p => encodeTile f true quality budget e p.1 p.2) e').scratch := by
  induction items generalizing e e' with
  | nil => exact h
  | cons p items ih =>
      rw [List.foldl_cons, List.foldl_cons]
      refine ih _ _ ?_
      have hdirty : ∀ sh, tileDirty f sh true p.2 = true := fun sh => rfl
      unfold encodeTile
      rw [if_pos (hdirty _), if_pos (hdirty _)]
      unfold Encoding.send
      dsimp only
      rw [h]

variable {f quality budget}

theorem encode_full {shadow : Bytes} {tileQ : List UInt8} {workers : Nat} {schedule : List Nat} {r : Encoded}
    (hworkers : 0 < workers) (h : encode f shadow true quality (some tileQ) budget workers schedule = some r) :
    ∃ ks : List Nat, ks.Perm (List.range (tileTotal f.width f.height)) ∧
      r.out = (ks.flatMap fun k => tileRecord f k quality) ∧ r.tiles = ks.length := by
  obtain ⟨r', hr', hout, htiles⟩ : ∃ r', encode f (List.replicate (f.width * 4 * f.height) 0) true quality
      (some tileQ) budget
      workers schedule = some r' ∧ r'.out = r.out ∧ r'.tiles = r.tiles := by
    unfold encode at h ⊢
    dsimp only [Option.map_some] at h ⊢
    rw [WorkQueue.runWith_eq] at h ⊢
    dsimp only at h ⊢
    split_ifs at h ⊢ with hdone
    have hscratch := fullTiles_scratch f quality budget
      (WorkQueue.order 4 (tileTotal f.width f.height) schedule (WorkQueue.start workers)).1
      ⟨0, List.replicate (f.width * 4 * f.height) 0, some (sizedTileQ (tileTotal f.width f.height) tileQ),
        List.replicate workers ⟨[], 0, 0⟩⟩
      ⟨0, shadow, some (sizedTileQ (tileTotal f.width f.height) tileQ), List.replicate workers ⟨[], 0, 0⟩⟩ rfl
    rw [← Option.some.inj h]
    refine ⟨_, rfl, ?_, ?_⟩
    · dsimp only
      rw [hscratch]
    · dsimp only
      rw [hscratch]
  obtain ⟨recs, hsent⟩ := encode_spec f _ true quality tileQ budget workers schedule r' hworkers (by simp) hr'
  have hq : ∀ p ∈ recs, p.q = quality := by
    intro p hp
    rcases hsent.kinds p hp with ⟨-, hq, -⟩ | ⟨hrefine, -⟩
    · exact hq
    · exact absurd (refinable_iff.mp hrefine).1 (by simp [tileDirty])
  refine ⟨recs.map (·.tile), ?_, ?_, ?_⟩
  · rw [List.perm_ext_iff_of_nodup hsent.nodup List.nodup_range]
    intro k
    rw [List.mem_range]
    constructor
    · intro hk
      obtain ⟨p, hp, rfl⟩ := List.mem_map.mp hk
      exact hsent.bound p hp
    · exact fun hk => hsent.dirty k hk rfl
  · rw [← hout, hsent.out, List.flatMap_map]
    exact List.flatMap_congr fun p hp => by rw [hq p hp]
  · rw [← htiles, hsent.tiles, List.length_map]

theorem encode_full_length {shadow : Bytes} {tileQ : List UInt8} {workers : Nat} {schedule : List Nat} {r : Encoded}
    (hworkers : 0 < workers) (h : encode f shadow true quality (some tileQ) budget workers schedule = some r) :
    r.tiles = tileTotal f.width f.height ∧
      r.out.length = ∑ k ∈ Finset.range (tileTotal f.width f.height), (tileRecord f k quality).length := by
  obtain ⟨ks, hperm, hout, htiles⟩ := encode_full hworkers h
  refine ⟨by rw [htiles, hperm.length_eq, List.length_range], ?_⟩
  rw [hout, List.length_flatMap, (hperm.map _).sum_eq]
  rfl

end Full

-- The records of a full update are never longer than raw pixels with 13 bytes a tile.
theorem records_length_le (f : Frame) (quality : Nat) :
    ∑ k ∈ Finset.range (tileTotal f.width f.height), (tileRecord f k quality).length ≤
      tileTotal f.width f.height * 13 + f.width * f.height * 3 := by
  rw [← sum_areas f.width f.height, Finset.sum_mul, ← smul_eq_mul, ← Finset.card_range (tileTotal f.width f.height),
    ← Finset.sum_const, Finset.card_range, ← Finset.sum_add_distrib]
  refine Finset.sum_le_sum fun k hk => ?_
  have hrect := f.rect_in (Finset.mem_range.mp hk)
  rw [tileRecord_length]
  exact Nat.add_le_add_left (payload_length_le _ _ _ _ _ hrect.w_pos hrect.h_pos) 13

-- Some frame of every size takes that much.
theorem exists_raw_frame (width height : Nat) :
    ∃ f : Frame, (f.width = width ∧ f.height = height) ∧
      (f.stride = 4 * width ∧ f.pixels.length = f.stride * height) ∧
      ∑ k ∈ Finset.range (tileTotal width height), (tileRecord f k 0).length =
        tileTotal width height * 13 + width * height * 3 := by
  have hraw : ∀ k, ∃ s : Nat → Nat → Nat → UInt8, k < tileTotal width height → ∀ bgra stride,
      (∀ x < (tileRect width height k).w, ∀ y < (tileRect width height k).h, ∀ c < 3,
        byteAt bgra (y * stride + 4 * x + c) = s x y c) →
      (rdEncodeTile bgra stride (tileRect width height k).w (tileRect width height k).h 0).2.length =
        (tileRect width height k).w * (tileRect width height k).h * 3 := by
    intro k
    by_cases hk : k < tileTotal width height
    · have hrect := tileRect_in hk
      obtain ⟨s, hs⟩ := exists_raw_tile ⟨hrect.w_pos, hrect.w_le⟩ ⟨hrect.h_pos, hrect.h_le⟩
      exact ⟨s, fun _ => hs⟩
    · exact ⟨fun _ _ _ => 0, fun h => absurd h hk⟩
  choose s hs using hraw
  let picture (X Y c : Nat) : UInt8 :=
    s (tileOf width X Y) (X - (tileRect width height (tileOf width X Y)).x)
      (Y - (tileRect width height (tileOf width X Y)).y) c
  let f : Frame := ⟨width, height, 4 * width, 0, pixelBytes width height picture⟩
  refine ⟨f, ⟨rfl, rfl⟩, ⟨rfl, ?_⟩, ?_⟩
  · rw [show f.pixels = pixelBytes width height picture from rfl, pixelBytes_length]
    ring
  · rw [← sum_areas width height, Finset.sum_mul, ← smul_eq_mul, ← Finset.card_range (tileTotal width height),
      ← Finset.sum_const, Finset.card_range, ← Finset.sum_add_distrib]
    refine Finset.sum_congr rfl fun k hk => ?_
    rw [Finset.mem_range] at hk
    have hrect := tileRect_in hk
    rw [tileRecord_length]
    refine congrArg (13 + ·) (hs k hk _ _ fun x hx y hy c hc => ?_)
    have hX : (tileRect width height k).x + x < width := by have := hrect.right; omega
    have hY : (tileRect width height k).y + y < height := by have := hrect.bottom; omega
    have htile : tileOf width ((tileRect width height k).x + x) ((tileRect width height k).y + y) = k :=
      (tileOf_eq_iff hX hY).mpr ⟨by omega, by omega, by omega, by omega⟩
    have hat : f.srcAt k + (y * (4 * width) + 4 * x + c) =
        ((tileRect width height k).y + y) * (4 * width) + 4 * ((tileRect width height k).x + x) + c := by
      rw [show f.srcAt k = (tileRect width height k).y * (4 * width) + (tileRect width height k).x * 4 from rfl]
      ring
    have hbyte := byteAt_pixelBytes (s := picture) hX hY (show c < 4 by omega)
    rw [byteAt, List.getD_eq_getElem?_getD, List.getElem?_drop, ← List.getD_eq_getElem?_getD, hat]
    refine hbyte.trans ?_
    simp only [picture, htile, Nat.add_sub_cancel_left]

end TetherDesk.Host
