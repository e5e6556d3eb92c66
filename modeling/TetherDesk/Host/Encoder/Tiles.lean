import TetherDesk.Host.Encoder
import TetherDesk.Codec.Tile.RoundTrip

namespace TetherDesk.Host

open TetherDesk.Codec TetherDesk.Lib

-- The tile that holds column X of row Y.
def tileOf (width X Y : Nat) : Nat := Y / RD_TILE * tilesX width + X / RD_TILE

theorem rd_tile : RD_TILE = 64 := rfl

theorem column_lt_tilesX {width X : Nat} (hX : X < width) : X / RD_TILE < tilesX width := by
  rw [tilesX, rd_tile]
  omega

theorem tileOf_lt {width height X Y : Nat} (hX : X < width) (hY : Y < height) :
    tileOf width X Y < tileTotal width height := by
  have hx := column_lt_tilesX hX
  have hy : Y / RD_TILE < tilesY height := by rw [tilesY, rd_tile]; omega
  calc tileOf width X Y < (Y / RD_TILE + 1) * tilesX width := by unfold tileOf; rw [Nat.add_mul]; omega
    _ ≤ tilesY height * tilesX width := Nat.mul_le_mul_right _ hy
    _ = tileTotal width height := Nat.mul_comm _ _

theorem tileOf_mod {width X : Nat} (Y : Nat) (hX : X < width) : tileOf width X Y % tilesX width = X / RD_TILE := by
  rw [tileOf, Nat.mul_comm, Nat.mul_add_mod, Nat.mod_eq_of_lt (column_lt_tilesX hX)]

theorem tileOf_div {width X : Nat} (Y : Nat) (hX : X < width) : tileOf width X Y / tilesX width = Y / RD_TILE := by
  have hx := column_lt_tilesX hX
  rw [tileOf, Nat.mul_comm, Nat.mul_add_div (Nat.zero_lt_of_lt hx), Nat.div_eq_of_lt hx, Nat.add_zero]

-- Tile k is the set of pixels it is the tile of.
theorem tileOf_eq_iff {width height X Y k : Nat} (hX : X < width) (hY : Y < height) :
    tileOf width X Y = k ↔
      (tileRect width height k).x ≤ X ∧ X < (tileRect width height k).x + (tileRect width height k).w ∧
      (tileRect width height k).y ≤ Y ∧ Y < (tileRect width height k).y + (tileRect width height k).h := by
  have hpos : 0 < tilesX width := Nat.zero_lt_of_lt (column_lt_tilesX hX)
  simp only [tileRect]
  constructor
  · rintro rfl
    rw [tileOf_mod Y hX, tileOf_div Y hX, rd_tile]
    omega
  · rintro ⟨hx₁, hx₂, hy₁, hy₂⟩
    have hcol : X / RD_TILE = k % tilesX width := by rw [rd_tile] at *; omega
    have hrow : Y / RD_TILE = k / tilesX width := by rw [rd_tile] at *; omega
    rw [tileOf, hcol, hrow, Nat.mul_comm]
    exact Nat.div_add_mod k (tilesX width)

structure RectIn (width height : Nat) (r : TileRect) : Prop where
  w_pos : 1 ≤ r.w
  w_le : r.w ≤ RD_TILE
  h_pos : 1 ≤ r.h
  h_le : r.h ≤ RD_TILE
  right : r.x + r.w ≤ width
  bottom : r.y + r.h ≤ height

theorem tileRect_in {width height k : Nat} (hk : k < tileTotal width height) :
    RectIn width height (tileRect width height k) := by
  have hpos : 0 < tilesX width := by
    rcases Nat.eq_zero_or_pos (tilesX width) with h | h
    · rw [tileTotal, h, Nat.zero_mul] at hk
      omega
    · exact h
  have hcol : k % tilesX width < tilesX width := Nat.mod_lt _ hpos
  have hrow : k / tilesX width < tilesY height :=
    Nat.div_lt_of_lt_mul hk
  have hx : k % tilesX width * RD_TILE < width := by rw [tilesX, rd_tile] at *; omega
  have hy : k / tilesX width * RD_TILE < height := by rw [tilesY, rd_tile] at *; omega
  constructor <;> simp only [tileRect, rd_tile] at * <;> omega

theorem Frame.rect_in (f : Frame) {k : Nat} (hk : k < tileTotal f.width f.height) :
    RectIn f.width f.height (f.rect k) :=
  tileRect_in hk

theorem Frame.tileOf_iff (f : Frame) {X Y k : Nat} (hX : X < f.width) (hY : Y < f.height) :
    tileOf f.width X Y = k ↔
      (f.rect k).x ≤ X ∧ X < (f.rect k).x + (f.rect k).w ∧ (f.rect k).y ≤ Y ∧
        Y < (f.rect k).y + (f.rect k).h :=
  tileOf_eq_iff hX hY

theorem byteAt_memCpy (dst : Bytes) (i : Nat) (src : Bytes) (j n t : Nat) (h : i + n ≤ dst.length) :
    byteAt (memCpy dst i src j n) t = if i ≤ t ∧ t < i + n then byteAt src (j + (t - i)) else byteAt dst t := by
  have hlen : (dst.take i).length = i := by rw [List.length_take]; omega
  simp only [byteAt, memCpy, List.getD_eq_getElem?_getD, List.append_assoc]
  by_cases h₁ : t < i
  · rw [List.getElem?_append_left (by omega), List.getElem?_take_of_lt h₁, if_neg (by omega)]
  · rw [List.getElem?_append_right (by omega), hlen]
    by_cases h₂ : t < i + n
    · rw [List.getElem?_append_left (by simp; omega), if_pos ⟨by omega, h₂⟩, List.getElem?_map,
        List.getElem?_range (by omega)]
      rfl
    · rw [List.getElem?_append_right (by simp; omega), if_neg (by omega), List.length_map, List.length_range,
        List.getElem?_drop]
      congr 2
      omega

theorem memCpy_length (dst : Bytes) (i : Nat) (src : Bytes) (j n : Nat) (h : i + n ≤ dst.length) :
    (memCpy dst i src j n).length = dst.length := by
  simp only [memCpy, List.length_append, List.length_take, List.length_map, List.length_range, List.length_drop]
  omega

-- Byte b of a row of the shadow.
theorem byteAt_row (dst : Bytes) (line R C n Y c j : Nat) (src : Bytes) (hC : C + n ≤ line) (hc : c < line)
    (h : R * line + C + n ≤ dst.length) :
    byteAt (memCpy dst (R * line + C) src j n) (Y * line + c) =
      if Y = R ∧ C ≤ c ∧ c < C + n then byteAt src (j + (c - C)) else byteAt dst (Y * line + c) := by
  rw [byteAt_memCpy _ _ _ _ _ _ h]
  rcases Nat.lt_trichotomy Y R with hlt | rfl | hgt
  · have : (Y + 1) * line ≤ R * line := Nat.mul_le_mul_right _ hlt
    rw [Nat.add_mul] at this
    rw [if_neg (by omega), if_neg (by omega)]
  · by_cases hin : C ≤ c ∧ c < C + n
    · rw [if_pos (by omega), if_pos ⟨rfl, hin⟩]
      congr 1
      omega
    · rw [if_neg (by omega), if_neg (by tauto)]
  · have : (R + 1) * line ≤ Y * line := Nat.mul_le_mul_right _ hgt
    rw [Nat.add_mul] at this
    rw [if_neg (by omega), if_neg (by omega)]

section CopyTile

variable (f : Frame) (sh : Bytes) (k : Nat) (hk : k < tileTotal f.width f.height)
  (hsh : sh.length = f.width * 4 * f.height)
include hk hsh

theorem copyRows (m : Nat) (hm : m ≤ (f.rect k).h) :
    ((List.range m).foldl (fun sh y =>
        memCpy sh (f.shadowAt k + y * (f.width * 4)) f.pixels (f.srcAt k + y * f.stride) ((f.rect k).w * 4))
        sh).length = sh.length ∧
    ∀ Y c, c < f.width * 4 →
      byteAt ((List.range m).foldl (fun sh y =>
        memCpy sh (f.shadowAt k + y * (f.width * 4)) f.pixels (f.srcAt k + y * f.stride) ((f.rect k).w * 4))
        sh) (Y * (f.width * 4) + c) =
      if (f.rect k).y ≤ Y ∧ Y < (f.rect k).y + m ∧ (f.rect k).x * 4 ≤ c ∧
          c < (f.rect k).x * 4 + (f.rect k).w * 4 then byteAt f.pixels (Y * f.stride + c)
      else byteAt sh (Y * (f.width * 4) + c) := by
  obtain ⟨_, _, _, _, hright, hbottom⟩ := f.rect_in hk
  induction m with
  | zero =>
      refine ⟨rfl, fun Y c hc => ?_⟩
      rw [if_neg (by omega)]
      rfl
  | succ m ih =>
      obtain ⟨ihlen, ihbyte⟩ := ih (by omega)
      rw [List.range_succ, List.foldl_append, List.foldl_cons, List.foldl_nil]
      have hat : f.shadowAt k + m * (f.width * 4) = ((f.rect k).y + m) * (f.width * 4) + (f.rect k).x * 4 := by
        unfold Frame.shadowAt
        ring
      have hfit : ((f.rect k).y + m) * (f.width * 4) + (f.rect k).x * 4 + (f.rect k).w * 4 ≤ sh.length := by
        have h₁ : ((f.rect k).y + m + 1) * (f.width * 4) ≤ f.height * (f.width * 4) :=
          Nat.mul_le_mul_right _ (by omega)
        rw [Nat.add_mul, Nat.one_mul] at h₁
        rw [hsh, Nat.mul_comm (f.width * 4)]
        omega
      rw [hat]
      refine ⟨(memCpy_length _ _ _ _ _ (by rw [ihlen]; exact hfit)).trans ihlen, fun Y c hc => ?_⟩
      rw [byteAt_row _ _ _ _ _ _ _ _ _ (by omega) hc (by rw [ihlen]; exact hfit), ihbyte Y c hc]
      by_cases hrow : Y = (f.rect k).y + m
      · subst hrow
        by_cases hin : (f.rect k).x * 4 ≤ c ∧ c < (f.rect k).x * 4 + (f.rect k).w * 4
        · rw [if_pos ⟨rfl, hin⟩, if_pos (by omega)]
          congr 1
          have : f.srcAt k + m * f.stride = ((f.rect k).y + m) * f.stride + (f.rect k).x * 4 := by
            unfold Frame.srcAt
            ring
          omega
        · rw [if_neg (by tauto), if_neg (by tauto), if_neg (by tauto)]
      · rw [if_neg (by tauto)]
        exact if_congr (by omega) rfl rfl

end CopyTile

-- Byte b of pixel (X, Y) in the shadow and in the frame.
def shadowByte (f : Frame) (sh : Bytes) (X Y b : Nat) : UInt8 := byteAt sh (Y * (f.width * 4) + (X * 4 + b))
def frameByte (f : Frame) (X Y b : Nat) : UInt8 := byteAt f.pixels (Y * f.stride + (X * 4 + b))

theorem copyTile_length (f : Frame) (sh : Bytes) (k : Nat) (hk : k < tileTotal f.width f.height)
    (hsh : sh.length = f.width * 4 * f.height) : (copyTile f sh k).length = sh.length :=
  (copyRows f sh k hk hsh _ (Nat.le_refl _)).1

theorem shadowByte_copyTile (f : Frame) (sh : Bytes) (k : Nat) (hk : k < tileTotal f.width f.height)
    (hsh : sh.length = f.width * 4 * f.height) (X Y b : Nat) (hX : X < f.width) (hY : Y < f.height) (hb : b < 4) :
    shadowByte f (copyTile f sh k) X Y b =
      if tileOf f.width X Y = k then frameByte f X Y b else shadowByte f sh X Y b := by
  have h := (copyRows f sh k hk hsh _ (Nat.le_refl _)).2 Y (X * 4 + b) (by omega)
  refine h.trans (if_congr ?_ rfl rfl)
  rw [f.tileOf_iff hX hY]
  omega

-- A clean tile's pixels are those of the frame.
theorem tileDirty_false (f : Frame) (sh : Bytes) (full : Bool) (k : Nat) (h : tileDirty f sh full k = false)
    (X Y b : Nat) (hX : X < f.width) (hY : Y < f.height) (hb : b < 4) (hk : tileOf f.width X Y = k) :
    shadowByte f sh X Y b = frameByte f X Y b := by
  obtain ⟨hx₁, hx₂, hy₁, hy₂⟩ := (f.tileOf_iff hX hY).mp hk
  unfold tileDirty at h
  simp only [Bool.or_eq_false_iff, List.any_eq_false, List.mem_range, Bool.not_eq_true, Bool.not_eq_false',
    memEq, List.all_eq_true, decide_eq_true_eq] at h
  have heq := h.2 (Y - (f.rect k).y) (by omega) ((X - (f.rect k).x) * 4 + b) (by omega)
  have hsrc : f.srcAt k + (Y - (f.rect k).y) * f.stride + ((X - (f.rect k).x) * 4 + b) =
      Y * f.stride + (X * 4 + b) := by
    have : (f.rect k).y * f.stride + (Y - (f.rect k).y) * f.stride = Y * f.stride := by
      rw [← Nat.add_mul, Nat.add_sub_cancel' hy₁]
    unfold Frame.srcAt
    omega
  have hdst : f.shadowAt k + (Y - (f.rect k).y) * (f.width * 4) + ((X - (f.rect k).x) * 4 + b) =
      Y * (f.width * 4) + (X * 4 + b) := by
    have : (f.rect k).y * (f.width * 4) + (Y - (f.rect k).y) * (f.width * 4) = Y * (f.width * 4) := by
      rw [← Nat.add_mul, Nat.add_sub_cancel' hy₁]
    unfold Frame.shadowAt
    omega
  rw [hsrc, hdst] at heq
  exact heq.symm

-- A tile whose pixels are those of the frame is clean.
theorem tileDirty_same (f : Frame) (sh : Bytes) (k : Nat) (hk : k < tileTotal f.width f.height)
    (h : ∀ X < f.width, ∀ Y < f.height, ∀ b < 4, shadowByte f sh X Y b = frameByte f X Y b) :
    tileDirty f sh false k = false := by
  obtain ⟨_, _, _, _, hright, hbottom⟩ := tileRect_in hk
  change (f.rect k).x + (f.rect k).w ≤ f.width at hright
  change (f.rect k).y + (f.rect k).h ≤ f.height at hbottom
  unfold tileDirty
  simp only [Bool.false_or, List.any_eq_false, List.mem_range, Bool.not_eq_true, Bool.not_eq_false', memEq,
    List.all_eq_true, decide_eq_true_eq]
  intro y hy t ht
  have hbyte := h ((f.rect k).x + t / 4) (by omega) ((f.rect k).y + y) (by omega) (t % 4) (by omega)
  have hsrc : ((f.rect k).y + y) * f.stride + (((f.rect k).x + t / 4) * 4 + t % 4) = f.srcAt k + y *
      f.stride + t := by
    have := Nat.add_mul (f.rect k).y y f.stride
    unfold Frame.srcAt
    omega
  have hdst : ((f.rect k).y + y) * (f.width * 4) + (((f.rect k).x + t / 4) * 4 + t % 4) =
      f.shadowAt k + y * (f.width * 4) + t := by
    have := Nat.add_mul (f.rect k).y y (f.width * 4)
    unfold Frame.shadowAt
    omega
  unfold shadowByte frameByte at hbyte
  rw [hsrc, hdst] at hbyte
  exact hbyte.symm

-- Only the tile's own pixels decide whether it is dirty.
theorem tileDirty_congr (f : Frame) (sh sh' : Bytes) (full : Bool) (k : Nat) (hk : k < tileTotal f.width f.height)
    (h : ∀ X < f.width, ∀ Y < f.height, ∀ b < 4, tileOf f.width X Y = k →
      shadowByte f sh X Y b = shadowByte f sh' X Y b) :
    tileDirty f sh full k = tileDirty f sh' full k := by
  obtain ⟨_, _, _, _, hright, hbottom⟩ := tileRect_in hk
  change (f.rect k).x + (f.rect k).w ≤ f.width at hright
  change (f.rect k).y + (f.rect k).h ≤ f.height at hbottom
  unfold tileDirty
  congr 1
  rw [Bool.eq_iff_iff]
  simp only [List.any_eq_true, List.mem_range, memEq]
  refine exists_congr fun y => and_congr_right fun hy => ?_
  rw [Bool.not_eq_true', Bool.not_eq_true', ← Bool.not_eq_true, ← Bool.not_eq_true, not_iff_not]
  simp only [List.all_eq_true, List.mem_range, decide_eq_true_eq]
  refine forall_congr' fun t => forall_congr' fun ht => ?_
  have hX : (f.rect k).x + t / 4 < f.width := by omega
  have hY : (f.rect k).y + y < f.height := by omega
  have htile : tileOf f.width ((f.rect k).x + t / 4) ((f.rect k).y + y) = k := by
    refine (f.tileOf_iff hX hY).mpr ?_
    omega
  have hbyte := h _ hX _ hY (t % 4) (by omega) htile
  unfold shadowByte at hbyte
  have hat : ((f.rect k).y + y) * (f.width * 4) + (((f.rect k).x + t / 4) * 4 + t % 4) =
      f.shadowAt k + y * (f.width * 4) + t := by
    have := Nat.add_mul (f.rect k).y y (f.width * 4)
    unfold Frame.shadowAt
    omega
  rw [hat] at hbyte
  rw [hbyte]

end TetherDesk.Host
