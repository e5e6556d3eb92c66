import TetherDesk.Codec.Tile.Memory
import TetherDesk.Codec.Tile.RoundTrip
import TetherDesk.Codec.Lz.Bound

namespace TetherDesk.Codec

open TetherDesk.Lib
open TetherDesk.Lib.Buffer

-- One pixel of a row that lies behind the rows already packed.
theorem packPixelAt_eq (bpp w : Nat) (idx : List UInt8) (front row back old : Bytes) (y x : Nat)
    (hbpp : bpp = 1 ∨ bpp = 2 ∨ bpp = 4 ∨ bpp = 8) (hx : x < w) (hidx : y * w + x < idx.length)
    (hfront : front.length = y * rowBytes w bpp) (hrow : row.length = rowBytes w bpp) :
    packPixelAt bpp w idx (filled (front ++ (row ++ back)) old) (y, x) =
      some (filled (front ++ (row.modify (x / (8 / bpp))
        (· ||| (idx.getD (y * w + x) 0 <<< UInt8.ofNat (pixelShift bpp x))) ++ back)) old) := by
  have hcolumn := column_byte_lt bpp w x hbpp hx
  rw [← hrow] at hcolumn
  simp only [packPixelAt, Option.bind_eq_bind]
  generalize x / (8 / bpp) = column at hcolumn ⊢
  have hat : front.length + column < (front ++ (row ++ back)).length := by
    rw [List.length_append, List.length_append]
    omega
  rw [load_eq_getElem?, ← hfront, List.getElem?_append_right (by omega), Nat.add_sub_cancel_left,
    List.getElem?_append_left hcolumn, List.getElem?_eq_getElem hcolumn, Option.bind_some,
    List.getElem?_eq_getElem hidx, Option.bind_some, store_set _ _ _ _ hat,
    List.set_append_right _ _ (by omega), Nat.add_sub_cancel_left, List.set_append_left _ _ hcolumn,
    List.modify_eq_set_get _ hcolumn, List.getD_eq_getElem _ _ hidx]
  rfl

theorem packRowAt_eq (bpp w : Nat) (idx : List UInt8) (front back old : Bytes) (y k : Nat)
    (hbpp : bpp = 1 ∨ bpp = 2 ∨ bpp = 4 ∨ bpp = 8) (hk : k ≤ w) (hidx : ∀ x < w, y * w + x < idx.length)
    (hfront : front.length = y * rowBytes w bpp) :
    ((List.range k).map fun x => (y, x)).foldlM (packPixelAt bpp w idx)
        (filled (front ++ (List.replicate (rowBytes w bpp) 0 ++ back)) old) =
      some (filled (front ++ (packUpTo bpp w (fun x => idx.getD (y * w + x) 0) k ++ back)) old) := by
  induction k with
  | zero => rfl
  | succ k ih =>
      rw [List.range_succ, List.map_append, List.foldlM_append, ih (by omega), Option.bind_eq_bind,
        Option.bind_some, List.map_singleton, List.foldlM_cons,
        packPixelAt_eq bpp w idx front _ back old y k hbpp (by omega) (hidx k (by omega)) hfront
          (packUpTo_length _ _ _ _), packUpTo_succ]
      rfl

-- Packing in place, over a zeroed array, gives the packed rows.
theorem packIndicesAt_eq (bpp w h : Nat) (idx : List UInt8) (old : Bytes)
    (hbpp : bpp = 1 ∨ bpp = 2 ∨ bpp = 4 ∨ bpp = 8) (hidx : idx.length = w * h)
    (hroom : rowBytes w bpp * h ≤ old.length) :
    packIndicesAt bpp w h idx (fresh old) =
      some (filled (packIndices bpp w h idx) (old.drop (rowBytes w bpp * h))) := by
  have hzero : storeAll (filled [] old) 0 (List.replicate (rowBytes w bpp * h) 0) = _ :=
    storeAll_filled [] old _ (by rwa [List.length_replicate])
  simp only [packIndicesAt, Option.bind_eq_bind]
  rw [← filled_nil, hzero, Option.bind_some, List.length_replicate, List.nil_append]
  generalize old.drop (rowBytes w bpp * h) = spare
  suffices hrows : ∀ k ≤ h, ((List.range k).flatMap fun y => (List.range w).map fun x => (y, x)).foldlM
      (packPixelAt bpp w idx) (filled (List.replicate (rowBytes w bpp * h) 0) spare) =
      some (filled (((List.range k).flatMap fun y => packRow bpp w fun x => idx.getD (y * w + x) 0) ++
        List.replicate (rowBytes w bpp * (h - k)) 0) spare) by
    have hall := hrows h le_rfl
    rwa [Nat.sub_self, Nat.mul_zero, List.replicate_zero, List.append_nil] at hall
  intro k hk
  induction k with
  | zero => rfl
  | succ k ih =>
      have hfront : ((List.range k).flatMap fun y => packRow bpp w fun x => idx.getD (y * w + x) 0).length =
          k * rowBytes w bpp := by
        rw [Chunks.length_flatMap_const _ _ (rowBytes w bpp) fun y _ => packRow_length _ _ _, List.length_range]
      have hnext : List.replicate (rowBytes w bpp * (h - k)) (0 : UInt8) =
          List.replicate (rowBytes w bpp) 0 ++ List.replicate (rowBytes w bpp * (h - (k + 1))) 0 := by
        rw [List.replicate_append_replicate]
        congr 1
        rw [show h - k = h - (k + 1) + 1 by omega]
        ring
      rw [List.range_succ, List.flatMap_append, List.foldlM_append, ih (by omega), Option.bind_eq_bind,
        Option.bind_some, List.flatMap_singleton, hnext,
        packRowAt_eq bpp w idx _ _ spare k w hbpp le_rfl (fun x hx => hidx ▸ index_lt hx hk) hfront,
        List.flatMap_append, List.flatMap_singleton, List.append_assoc]
      rfl

theorem sampleAt_eq (t old : Bytes) (i back : Nat) (hback : back ≤ i) (hi : i - back < t.length) :
    sampleAt (filled t old) i back = some ((byteAt t (i - back)).toNat : Int) := by
  rw [sampleAt, sub_of_le hback, Option.bind_eq_bind, Option.bind_some, load_filled t old _ hi, byteAt,
    List.getD_eq_getElem _ _ hi]
  rfl

-- The neighbours of a sample lie inside the samples.
theorem predictAt_eq (w : Nat) (t old : Bytes) (i : Nat) (hi : i < t.length) :
    predictAt w (filled t old) i = some (predict w t i) := by
  have hleft : i / 3 % w ≠ 0 → 3 ≤ i := by
    intro hx
    by_contra hlt
    exact hx (by rw [Nat.div_eq_of_lt (by omega)]; exact Nat.zero_mod w)
  have habove : i / 3 / w ≠ 0 → w * 3 ≤ i := by
    intro hy
    by_contra hlt
    exact hy (Nat.div_eq_of_lt (by omega))
  have hcorner : i / 3 % w ≠ 0 → i / 3 / w ≠ 0 → w * 3 + 3 ≤ i := by
    intro hx hy
    have hsplit := Nat.div_add_mod (i / 3) w
    have hrow : w ≤ w * (i / 3 / w) := Nat.le_mul_of_pos_right w (Nat.pos_of_ne_zero hy)
    omega
  simp only [predictAt, predict, Option.bind_eq_bind]
  by_cases hx : i / 3 % w ≠ 0
  · have hl := sampleAt_eq t old i 3 (hleft hx) (by omega)
    by_cases hy : i / 3 / w ≠ 0
    · have hu := sampleAt_eq t old i (w * 3) (habove hy) (by omega)
      have hd := sampleAt_eq t old i (w * 3 + 3) (hcorner hx hy) (by omega)
      simp only [if_pos hx, if_pos hy, if_pos (And.intro hx hy), hl, hu, hd, Option.bind_some, Nat.sub_sub]
      rfl
    · simp only [if_pos hx, if_neg hy, if_neg (fun h : i / 3 % w ≠ 0 ∧ i / 3 / w ≠ 0 => hy h.2), hl,
        Option.bind_some]
      rfl
  · have hskip : ¬(i / 3 % w ≠ 0 ∧ i / 3 / w ≠ 0) := fun h => hx h.1
    by_cases hy : i / 3 / w ≠ 0
    · have hu := sampleAt_eq t old i (w * 3) (habove hy) (by omega)
      simp only [if_neg hx, if_pos hy, if_neg hskip, hu, Option.bind_some]
      rfl
    · simp only [if_neg hx, if_neg hy, if_neg hskip, Option.bind_some]
      rfl

theorem residuals_loop (w : Nat) (t spare old : Bytes) (hroom : t.length ≤ old.length) :
    (List.range t.length).foldlM (residualAt w (filled t spare)) (fresh old) =
      some (filled (Predictor.residuals (predict w) codeSample t) (old.drop t.length)) := by
  refine foldlM_store old _ _ t.length hroom fun i hi buf => ?_
  simp only [residualAt, Option.bind_eq_bind]
  rw [predictAt_eq w t spare i hi, Option.bind_some, load_filled t spare i hi, Option.bind_some,
    List.getD_eq_getElem _ _ hi]

-- The arrays of the encoder hold what it puts into them for every tile of up to
-- RD_TILE by RD_TILE pixels, and its payload is the one of rd_encode_tile.
theorem rdEncodeTileInto_eq (stack : EncoderStack) (bgra : Bytes) (stride w h : Nat) (quality : Int)
    (hw : w ≤ RD_TILE) (hh : h ≤ RD_TILE) :
    rdEncodeTileInto stack bgra stride w h quality = some (rdEncodeTile bgra stride w h quality) := by
  have hlen := tilePixels_length bgra stride w h quality
  have hpx := tilePixels_rgb24 bgra stride w h quality
  have harea : w * h ≤ TILE_PX := Nat.mul_le_mul hw hh
  have hlzroom : ∀ src : Bytes, src.length ≤ TILE_PX * 3 → rdLzBound src.length ≤ stack.lz.length :=
    fun src hsrc => stack.lz_size.symm ▸ rdLzBound_le_lzCap hsrc
  unfold rdEncodeTileInto rdEncodeTile
  dsimp only
  cases hst : buildPalette (tilePixels bgra stride w h quality) with
  | some st =>
      dsimp only
      by_cases hsolid : st.pal.length = 1
      · rw [if_pos hsolid, if_pos hsolid]
      · have hidx : st.idx.length = w * h := by
          rw [← hlen]
          exact (buildPalette_invariant hpx hst).idx_ok.length_eq
        have hpacked := packIndices_length (palBpp st.pal.length) w h st.idx
        have hbytes : rowBytes w (palBpp st.pal.length) * h ≤ TILE_PX * 3 :=
          (Nat.mul_le_mul_right h (rowBytes_le w st.pal.length)).trans (by omega)
        have hlz := (rdLzCompressInto_eq (packIndices (palBpp st.pal.length) w h st.idx) stack.lz lzCap
          (hlzroom _ (by rwa [hpacked]))).1
        rw [if_neg hsolid, if_neg hsolid]
        simp only [Option.bind_eq_bind]
        rw [packIndicesAt_eq _ w h st.idx stack.work (palBpp_cases _) hidx (by rwa [stack.work_size]),
          Option.bind_some, loadAll_filled _ _ 0 _ (by omega), Option.bind_some, List.drop_zero,
          List.take_of_length_le (by omega), hlz, Option.bind_some]
        dsimp only
        split_ifs
        · rw [loadAll_filled _ _ 0 _ (by omega), List.drop_zero, List.take_length]
          rfl
        · rfl
  | none =>
      have hres : (Predictor.residuals (predict w) codeSample
          (decorrelate (tilePixels bgra stride w h quality))).length = w * h * 3 := by
        rw [Predictor.residuals_length, decorrelate_length, hlen]
      have hsamples := decorrelate_length (tilePixels bgra stride w h quality)
      rw [hlen] at hsamples
      have hstore : storeAll (filled [] stack.work) 0 (decorrelate (tilePixels bgra stride w h quality)) = _ :=
        storeAll_filled [] stack.work _ (by rw [stack.work_size]; omega)
      have hloop := residuals_loop w (decorrelate (tilePixels bgra stride w h quality))
        (stack.work.drop (decorrelate (tilePixels bgra stride w h quality)).length) stack.res
        (by rw [stack.res_size]; omega)
      rw [hsamples] at hloop
      have hlz := (rdLzCompressInto_eq (Predictor.residuals (predict w) codeSample
        (decorrelate (tilePixels bgra stride w h quality))) stack.lz lzCap
        (hlzroom _ (by omega))).1
      dsimp only
      simp only [Option.bind_eq_bind]
      rw [← filled_nil, hstore, Option.bind_some, List.nil_append, hsamples, hloop, Option.bind_some,
        loadAll_filled _ _ 0 _ (by omega), Option.bind_some, List.drop_zero, List.take_of_length_le (by omega),
        hlz, Option.bind_some]
      dsimp only
      split_ifs
      · rw [loadAll_filled _ _ 0 _ (by omega), List.drop_zero, List.take_length]
        rfl
      · rfl

-- An array of rd_lz_bound elements takes all that rd_lz_compress ever writes,
-- the reserved token bytes included, and the fixed arrays of rd_encode_tile
-- take every tile.
theorem lz_output_bound (src : Bytes) :
    (∀ cap old, rdLzBound src.length ≤ old.length →
      rdLzCompressInto src cap (fresh old) = some ((rdLzCompress src cap).length,
        filled (rdLzCompress src cap) (old.drop (rdLzCompress src cap).length)) ∧
      (rdLzCompress src cap).length ≤ rdLzBound src.length) ∧
    ∀ stack bgra stride w h quality, 1 ≤ w ∧ w ≤ RD_TILE → 1 ≤ h ∧ h ≤ RD_TILE →
      rdEncodeTileInto stack bgra stride w h quality = some (rdEncodeTile bgra stride w h quality) :=
  ⟨fun cap old hroom => rdLzCompressInto_eq src old cap hroom,
    fun stack bgra stride w h quality hw hh => rdEncodeTileInto_eq stack bgra stride w h quality hw.2 hh.2⟩

theorem lz_output_bound_run :
    rdLzCompressInto (List.replicate 40 7) 56 (fresh (List.replicate 56 0)) =
        some (11, filled (rdLzCompress (List.replicate 40 7) 56) (List.replicate 45 0)) ∧
      rdEncodeTileInto ⟨List.replicate 12288 0, List.replicate 12288 0, List.replicate 12352 0,
          List.length_replicate, List.length_replicate, List.length_replicate⟩ [1, 2, 3, 0, 4, 5, 6, 0] 8 2 1 0 =
        some (RD_ENC_RAW, [3, 2, 1, 6, 5, 4]) := by
  have h := (lz_output_bound (List.replicate 40 7)).1 56 (List.replicate 56 0) (by decide)
  have hlen : (rdLzCompress (List.replicate 40 7) 56).length = 11 := by decide
  rw [hlen] at h
  exact ⟨h.1, (lz_output_bound []).2 _ _ 8 2 1 0 (by decide) (by decide)⟩

end TetherDesk.Codec
