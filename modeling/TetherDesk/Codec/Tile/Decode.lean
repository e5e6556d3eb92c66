import TetherDesk.Codec.Tile.Encode
import TetherDesk.Codec.Lz.Decompress

namespace TetherDesk.Codec

open TetherDesk.Lib
open TetherDesk.Lib.Buffer

-- From one array to the next only the given elements have been written.
def WritesOnly (fb fb' : Cells UInt32) (addresses : Nat → Prop) : Prop :=
  fb'.length = fb.length ∧
    ∀ i, fb'[i]? = fb[i]? ∨ addresses i ∧ ∃ c, fb'[i]? = some (.written c)

theorem WritesOnly.refl (fb : Cells UInt32) (addresses : Nat → Prop) : WritesOnly fb fb addresses :=
  ⟨rfl, fun _ => .inl rfl⟩

theorem WritesOnly.trans {fb₁ fb₂ fb₃ : Cells UInt32} {addresses : Nat → Prop}
    (h₁ : WritesOnly fb₁ fb₂ addresses) (h₂ : WritesOnly fb₂ fb₃ addresses) : WritesOnly fb₁ fb₃ addresses := by
  refine ⟨h₂.1.trans h₁.1, fun i => ?_⟩
  rcases h₂.2 i with h | h
  · rcases h₁.2 i with h' | ⟨ha, c, hc⟩
    · exact .inl (h.trans h')
    · exact .inr ⟨ha, c, h.trans hc⟩
  · exact .inr h

theorem WritesOnly.mono {fb fb' : Cells UInt32} {few many : Nat → Prop} (h : WritesOnly fb fb' few)
    (hsub : ∀ i, few i → many i) : WritesOnly fb fb' many :=
  ⟨h.1, fun i => (h.2 i).imp id fun ⟨ha, hc⟩ => ⟨hsub i ha, hc⟩⟩

-- Of a buffer whose elements are all stale, the written ones and the others.
theorem WritesOnly.written {px : List UInt32} {fb : Cells UInt32} {addresses : Nat → Prop}
    (h : WritesOnly (fresh px) fb addresses) {i : Nat} {c : UInt32} (hc : fb[i]? = some (.written c)) :
    addresses i := by
  rcases h.2 i with hold | ⟨haddr, _⟩
  · rw [hc, fresh, List.getElem?_map] at hold
    cases hi : px[i]? <;> rw [hi] at hold <;> cases hold
  · exact haddr

theorem WritesOnly.stale {px : List UInt32} {fb : Cells UInt32} {addresses : Nat → Prop}
    (h : WritesOnly (fresh px) fb addresses) {i : Nat} {c : UInt32} (hc : fb[i]? = some (.stale c)) :
    px[i]? = some c := by
  rcases h.2 i with hold | ⟨_, c', hnew⟩
  · rw [hc, fresh, List.getElem?_map] at hold
    cases hi : px[i]? <;> rw [hi] at hold <;> cases hold
    rfl
  · rw [hc] at hnew
    cases hnew

-- The addresses of a w by h rectangle at dst.
def InRectangle (dst ds w h : Nat) (i : Nat) : Prop := ∃ y < h, ∃ x < w, i = dst + y * ds + x

-- As long as each pixel has its address in the framebuffer, blit draws there
-- and nowhere else.
theorem blitAt_eq (dst ds : Nat) (px : Nat → Nat → Option (Option UInt32)) (px' : Nat → Nat → Option UInt32)
    (coords : List (Nat × Nat)) (fb : Cells UInt32) (pixels : Pixels)
    (hpx : ∀ c ∈ coords, px c.1 c.2 = some (px' c.1 c.2))
    (hin : ∀ c ∈ coords, dst + c.1 * ds + c.2 < fb.length) (hfb : Agrees fb pixels) :
    ∃ fb', blitAt dst ds px coords fb = some ((blit dst ds px' coords pixels).1, fb') ∧
      Agrees fb' (blit dst ds px' coords pixels).2 ∧
      WritesOnly fb fb' fun i => ∃ c ∈ coords, i = dst + c.1 * ds + c.2 := by
  induction coords generalizing fb pixels with
  | nil => exact ⟨fb, rfl, hfb, .refl _ _⟩
  | cons c rest ih =>
      obtain ⟨y, x⟩ := c
      simp only [blitAt, blit, Option.bind_eq_bind]
      rw [hpx (y, x) List.mem_cons_self, Option.bind_some]
      cases px' y x with
      | none => exact ⟨fb, rfl, hfb, .refl _ _⟩
      | some colour =>
          obtain ⟨fb₁, hstore, hlen, hfb₁, hwritten, hother⟩ :=
            store_some fb (dst + y * ds + x) colour pixels (hin (y, x) List.mem_cons_self) hfb
          obtain ⟨fb', hrest, hfb', honly⟩ := ih fb₁ _ (fun c hc => hpx c (List.mem_cons_of_mem _ hc))
            (fun c hc => hlen ▸ hin c (List.mem_cons_of_mem _ hc)) hfb₁
          dsimp only
          rw [hstore, Option.bind_some]
          refine ⟨fb', hrest, hfb', WritesOnly.trans ⟨hlen, fun i => ?_⟩ (honly.mono ?_)⟩
          · by_cases hi : i = dst + y * ds + x
            · exact .inr ⟨⟨(y, x), List.mem_cons_self, hi⟩, colour, hi ▸ hwritten⟩
            · exact .inl (hother i hi)
          · rintro i ⟨c, hc, hi⟩
            exact ⟨c, List.mem_cons_of_mem _ hc, hi⟩

theorem argbAt_eq (p : Bytes) (i : Nat) (h : i + 2 < p.length) :
    argbAt p i = some (argb (byteAt p i) (byteAt p (i + 1)) (byteAt p (i + 2))) := by
  have hat : ∀ j (hj : j < p.length), p[j]? = some (byteAt p j) := by
    intro j hj
    rw [List.getElem?_eq_getElem hj, byteAt, List.getD_eq_getElem _ _ hj]
  simp only [argbAt, Option.bind_eq_bind]
  rw [hat i (by omega), Option.bind_some, hat (i + 1) (by omega), Option.bind_some, hat (i + 2) h,
    Option.bind_some]
  rfl

-- The samples are restored in place, the array stays full.
theorem restoreAll_loop (w : Nat) (s spare : Bytes) (k : Nat) (hk : k ≤ s.length) :
    (List.range k).foldlM (restoreAtIn w) (filled s spare) =
        some (filled (Predictor.restoreAll (predict w) restoreSample k s) spare) ∧
      (Predictor.restoreAll (predict w) restoreSample k s).length = s.length := by
  induction k with
  | zero => exact ⟨rfl, rfl⟩
  | succ k ih =>
      obtain ⟨hloop, hlen⟩ := ih (by omega)
      unfold Predictor.restoreAll at hloop hlen ⊢
      rw [List.range_succ, List.foldlM_append, hloop, List.foldl_append, List.foldl_cons, List.foldl_nil]
      generalize (List.range k).foldl (Predictor.restoreAt (predict w) restoreSample) s = t at hlen ⊢
      have hkt : k < t.length := by omega
      refine ⟨?_, by rw [Predictor.restoreAt, List.length_set, hlen]⟩
      simp only [Option.bind_eq_bind, Option.bind_some, List.foldlM_cons, List.foldlM_nil, restoreAtIn]
      rw [predictAt_eq w t spare k hkt, Option.bind_some, load_filled t spare k hkt, Option.bind_some,
        store_set t spare k _ hkt, Predictor.restoreAt, List.getD_eq_getElem _ _ hkt]
      rfl

theorem mem_window_bounds {w h : Nat} {c : Nat × Nat} (hc : c ∈ window w h) : c.1 < h ∧ c.2 < w :=
  mem_window.mp (show (c.1, c.2) ∈ window w h from hc)

theorem palPixelAt_eq (p packed spare : Bytes) (pspare : List UInt32) (w h np y x : Nat)
    (hlen : packed.length = rowBytes w (palBpp np) * h) (hy : y < h) (hx : x < w) :
    palPixelAt w np (filled packed spare) (filled ((List.range np).map (palColour p)) pspare) y x =
      some (let i := (unpackIndex (palBpp np) (packed.drop (y * rowBytes w (palBpp np))) x).toNat
        if i ≥ np then none else some (palColour p i)) := by
  have hcolumn := column_byte_lt (palBpp np) w x (palBpp_cases np) hx
  have hin : y * rowBytes w (palBpp np) + x / (8 / palBpp np) < packed.length := by
    rw [hlen]
    exact index_lt hcolumn hy
  simp only [palPixelAt, Option.bind_eq_bind]
  have hbyte : byteAt (packed.drop (y * rowBytes w (palBpp np))) (x / (8 / palBpp np)) =
      packed[y * rowBytes w (palBpp np) + x / (8 / palBpp np)] := by
    rw [byteAt, List.getD_eq_getElem?_getD, List.getElem?_drop, List.getElem?_eq_getElem hin, Option.getD_some]
  rw [load_filled packed spare _ hin, Option.bind_some, ← hbyte]
  change (if (unpackIndex (palBpp np) (packed.drop (y * rowBytes w (palBpp np))) x).toNat ≥ np then _
    else Option.bind (load _ (unpackIndex (palBpp np) (packed.drop (y * rowBytes w (palBpp np))) x).toNat) _) = _
  generalize (unpackIndex (palBpp np) (packed.drop (y * rowBytes w (palBpp np))) x).toNat = i
  by_cases hi : i ≥ np
  · rw [if_pos hi, if_pos hi]
  · rw [if_neg hi, if_neg hi, load_filled _ _ _ (by rw [List.length_map, List.length_range]; omega),
      Option.bind_some, List.getElem_map, List.getElem_range]

theorem zrgbPixelAt_eq (t spare : Bytes) (w h y x : Nat) (hlen : t.length = w * h * 3) (hy : y < h) (hx : x < w) :
    zrgbPixelAt w (filled t spare) y x =
      some (let i := (y * w + x) * 3
        let g := byteAt t i
        some (argb (byteAt t (i + 1) + g) g (byteAt t (i + 2) + g))) := by
  have harea := index_lt hx hy
  have hat : ∀ k < 3, load (filled t spare) ((y * w + x) * 3 + k) = some (byteAt t ((y * w + x) * 3 + k)) := by
    intro k hk
    have hin : (y * w + x) * 3 + k < t.length := by omega
    rw [load_filled t spare _ hin, byteAt, List.getD_eq_getElem _ _ hin]
  simp only [zrgbPixelAt, Option.bind_eq_bind]
  rw [← Nat.add_zero ((y * w + x) * 3), hat 0 (by omega), Option.bind_some, Nat.add_zero, hat 1 (by omega),
    Option.bind_some, hat 2 (by omega), Option.bind_some]

-- A tile whose rectangle lies in the framebuffer is decoded without a fault, as
-- rd_decode_tile decodes it, and only in that rectangle.
theorem rdDecodeTileInto_eq (stack : DecoderStack) (enc : Nat) (p : Bytes) (w h dst ds : Nat) (fb : Cells UInt32)
    (pixels : Pixels) (hin : ∀ i, InRectangle dst ds w h i → i < fb.length) (hfb : Agrees fb pixels) :
    ∃ fb', rdDecodeTileInto stack enc p w h dst ds fb = some ((rdDecodeTile enc p w h dst ds pixels).1, fb') ∧
      Agrees fb' (rdDecodeTile enc p w h dst ds pixels).2 ∧
      WritesOnly fb fb' fun i => (1 ≤ w ∧ w ≤ RD_TILE) ∧ (1 ≤ h ∧ h ≤ RD_TILE) ∧ InRectangle dst ds w h i := by
  unfold rdDecodeTileInto rdDecodeTile
  by_cases hsize : w = 0 ∨ h = 0 ∨ w > RD_TILE ∨ h > RD_TILE
  · rw [if_pos hsize, if_pos hsize]
    exact ⟨fb, rfl, hfb, .refl _ _⟩
  · rw [if_neg hsize, if_neg hsize]
    have harea : w * h ≤ TILE_PX := Nat.mul_le_mul (by omega) (by omega)
    -- the four encodings differ in the colour of a pixel only
    have hblit : ∀ (px : Nat → Nat → Option (Option UInt32)) (px' : Nat → Nat → Option UInt32),
        (∀ y < h, ∀ x < w, px y x = some (px' y x)) →
        ∃ fb', blitAt dst ds px (window w h) fb = some ((blit dst ds px' (window w h) pixels).1, fb') ∧
          Agrees fb' (blit dst ds px' (window w h) pixels).2 ∧
          WritesOnly fb fb' fun i => (1 ≤ w ∧ w ≤ RD_TILE) ∧ (1 ≤ h ∧ h ≤ RD_TILE) ∧ InRectangle dst ds w h i := by
      intro px px' hpx
      obtain ⟨fb', hrun, hfb', honly⟩ := blitAt_eq dst ds px px' (window w h) fb pixels
        (fun c hc => hpx _ (mem_window_bounds hc).1 _ (mem_window_bounds hc).2)
        (fun c hc => hin _ ⟨c.1, (mem_window_bounds hc).1, c.2, (mem_window_bounds hc).2, rfl⟩) hfb
      refine ⟨fb', hrun, hfb', honly.mono ?_⟩
      rintro i ⟨c, hc, hi⟩
      exact ⟨by omega, by omega, c.1, (mem_window_bounds hc).1, c.2, (mem_window_bounds hc).2, hi⟩
    have hskip : ∃ fb', some ((-1 : Int), fb) = some (((-1 : Int), pixels).1, fb') ∧
        Agrees fb' ((-1 : Int), pixels).2 ∧
        WritesOnly fb fb' fun i => (1 ≤ w ∧ w ≤ RD_TILE) ∧ (1 ≤ h ∧ h ≤ RD_TILE) ∧ InRectangle dst ds w h i :=
      ⟨fb, rfl, hfb, .refl _ _⟩
    dsimp only
    by_cases hsolid : enc = RD_ENC_SOLID
    · rw [if_pos hsolid, if_pos hsolid]
      by_cases hlen : p.length ≠ 3
      · rw [if_pos hlen, if_pos hlen]
        exact hskip
      · rw [if_neg hlen, if_neg hlen, argbAt_eq p 0 (by omega), Option.bind_eq_bind, Option.bind_some]
        exact hblit _ _ fun _ _ _ _ => rfl
    rw [if_neg hsolid, if_neg hsolid]
    by_cases hraw : enc = RD_ENC_RAW
    · rw [if_pos hraw, if_pos hraw]
      by_cases hlen : p.length ≠ w * h * 3
      · rw [if_pos hlen, if_pos hlen]
        exact hskip
      · rw [if_neg hlen, if_neg hlen]
        refine hblit _ _ fun y hy x hx => ?_
        have := index_lt hx hy
        rw [argbAt_eq p _ (by omega)]
        rfl
    rw [if_neg hraw, if_neg hraw]
    by_cases hpalette : enc = RD_ENC_PALETTE
    · rw [if_pos hpalette, if_pos hpalette]
      by_cases hempty : p.length < 1
      · rw [if_pos hempty, if_pos hempty]
        exact hskip
      · have hhead : p[0]? = some (byteAt p 0) := by
          rw [List.getElem?_eq_getElem (by omega), byteAt, List.getD_eq_getElem _ _ (by omega)]
        have hbyte : (byteAt p 0).toNat + 1 ≤ 256 := (byteAt p 0).toNat_lt
        rw [if_neg hempty, if_neg hempty, hhead]
        simp only [Option.bind_eq_bind, Option.bind_some]
        generalize (byteAt p 0).toNat + 1 = np at hbyte ⊢
        by_cases hshort : p.length < 1 + np * 3
        · rw [if_pos hshort, if_pos hshort]
          exact hskip
        · have hpal := foldlM_store stack.pal (palEntryAt p) (palColour p) np
            (by rw [stack.pal_size]; omega) (fun i hi buf => by
              simp only [palEntryAt, Option.bind_eq_bind]
              rw [argbAt_eq p _ (by omega), Option.bind_some, palColour, Nat.add_comm 2, Nat.add_comm 3,
                Nat.add_comm 1])
          have hwant : rowBytes w (palBpp np) * h ≤ stack.packed.length := by
            rw [stack.packed_size]
            exact (Nat.mul_le_mul_right h (rowBytes_le w np)).trans harea
          have hsrc : (p.drop (1 + np * 3)).take (p.length - (1 + np * 3)) = p.drop (1 + np * 3) :=
            List.take_of_length_le (by rw [List.length_drop])
          rw [if_neg hshort, if_neg hshort, hpal, Option.bind_some, sub_of_le (by omega), Option.bind_some,
            slice_of_le (by omega), Option.bind_some, hsrc, rdLzDecompressInto_eq _ _ stack.packed hwant,
            Option.bind_some]
          cases rdLzDecompress (p.drop (1 + np * 3)) (rowBytes w (palBpp np) * h) with
          | none => exact hskip
          | some packed =>
              dsimp only [Option.map_some]
              by_cases hgot : packed.length ≠ rowBytes w (palBpp np) * h
              · rw [if_pos hgot, if_pos hgot]
                exact hskip
              · rw [if_neg hgot, if_neg hgot]
                exact hblit _ _ fun y hy x hx => palPixelAt_eq p packed _ _ w h np y x (by omega) hy hx
    rw [if_neg hpalette, if_neg hpalette]
    by_cases hzrgb : enc = RD_ENC_ZRGB
    · rw [if_pos hzrgb, if_pos hzrgb]
      rw [rdLzDecompressInto_eq _ _ stack.t (by rw [stack.t_size]; omega)]
      simp only [Option.bind_eq_bind, Option.bind_some]
      cases rdLzDecompress p (w * h * 3) with
      | none => exact hskip
      | some t =>
          dsimp only [Option.map_some]
          by_cases hgot : t.length ≠ w * h * 3
          · rw [if_pos hgot, if_pos hgot]
            exact hskip
          · obtain ⟨hloop, hlen⟩ := restoreAll_loop w t (stack.t.drop t.length) (w * h * 3) (by omega)
            rw [if_neg hgot, if_neg hgot, hloop, Option.bind_some]
            exact hblit _ _ fun y hy x hx => zrgbPixelAt_eq _ _ w h y x (by omega) hy hx
    · rw [if_neg hzrgb, if_neg hzrgb]
      exact hskip

end TetherDesk.Codec
