import TetherDesk.Codec.Tile.Theorems

namespace TetherDesk.Codec

open TetherDesk.Lib

-- Every index written so far names its pixel's colour in the palette.
def Indexes (pal : List UInt32) (idx : List UInt8) (px : List UInt32) : Prop :=
  List.Forall₂ (fun (i : UInt8) c => pal[i.toNat]? = some c) idx px

structure PalInvariant (px done : List UInt32) (st : PalState) : Prop where
  slots_ok : ∀ s i c, st.slots s = some (i, c) → st.pal[i]? = some c
  filled_le : LinearProbe.filled PAL_HASH st.slots ≤ st.pal.length
  np_le : st.pal.length ≤ 256
  last_ok : (∀ c ∈ px, c ≠ st.last) ∨ st.pal[st.lastI.toNat]? = some st.last
  idx_ok : Indexes st.pal st.idx done

theorem getElem?_append_of_some {α : Type*} {l : List α} {i : Nat} {a : α} (more : List α)
    (h : l[i]? = some a) : (l ++ more)[i]? = some a := by
  obtain ⟨hi, _⟩ := List.getElem?_eq_some_iff.mp h
  rw [List.getElem?_append_left hi, h]

theorem Indexes.append {pal : List UInt32} {idx : List UInt8} {px : List UInt32}
    (h : Indexes pal idx px) (more : List UInt32) : Indexes (pal ++ more) idx px :=
  h.imp fun _ _ => getElem?_append_of_some more

theorem Indexes.concat {pal : List UInt32} {idx : List UInt8} {px : List UInt32} {i : UInt8}
    {c : UInt32} (h : Indexes pal idx px) (hi : pal[i.toNat]? = some c) :
    Indexes pal (idx ++ [i]) (px ++ [c]) :=
  List.rel_append h (.cons hi .nil)

theorem toNat_ofNat_of_index {i : Nat} {pal : List UInt32} {c : UInt32} (hnp : pal.length ≤ 256)
    (h : pal[i]? = some c) : pal[(UInt8.ofNat i).toNat]? = some c := by
  obtain ⟨hi, _⟩ := List.getElem?_eq_some_iff.mp h
  rw [UInt8.toNat_ofNat', Nat.mod_eq_of_lt (by omega), h]

theorem palHash_lt (c : UInt32) : palHash c < PAL_HASH := by
  unfold palHash
  rw [UInt32.toNat_and]
  exact Nat.and_lt_two_pow (n := 10) _ (by decide)

theorem palStep_invariant {px done : List UInt32} {st st' : PalState} {c : UInt32} (hc : c ∈ px)
    (inv : PalInvariant px done st) (h : palStep st c = some st') :
    PalInvariant px (done ++ [c]) st' := by
  obtain ⟨hslots, hfilled, hnp, hlast, hidx⟩ := inv
  unfold palStep at h
  by_cases hsame : c = st.last
  · -- the last colour again: its index is still valid, unless no pixel has that colour
    rw [if_pos hsame, Option.some.injEq] at h
    subst h
    have hl := hlast.resolve_left fun hn => hn c hc hsame
    exact ⟨hslots, hfilled, hnp, hlast, hidx.concat (hsame ▸ hl)⟩
  · rw [if_neg hsame] at h
    dsimp only at h
    have hsettled := LinearProbe.probe_settled PAL_HASH st.slots c (palHash c) (palHash_lt c)
      (hfilled.trans_lt (by unfold PAL_HASH; omega))
    generalize LinearProbe.probe PAL_HASH st.slots c PAL_HASH (palHash c) = s at h hsettled
    cases hs : st.slots s with
    | some entry =>
        obtain ⟨i, other⟩ := entry
        rcases hsettled with hnone | ⟨value, hvalue⟩
        · simp [hs] at hnone
        · rw [hs, Option.some.injEq, Prod.mk.injEq] at hvalue
          obtain ⟨rfl, rfl⟩ := hvalue
          have hi := toNat_ofNat_of_index hnp (hslots s i other hs)
          simp only [hs, Option.some.injEq] at h
          subst h
          exact ⟨hslots, hfilled, hnp, Or.inr hi, hidx.concat hi⟩
    | none =>
        simp only [hs] at h
        split_ifs at h with hfull
        rw [Option.some.injEq] at h
        subst h
        -- a new colour takes the next palette entry
        have hnew : (st.pal ++ [c])[st.pal.length]? = some c := by simp
        have hlen : (st.pal ++ [c]).length ≤ 256 := by rw [List.length_append, List.length_singleton]; omega
        have hi := toNat_ofNat_of_index hlen hnew
        refine ⟨fun t i d ht => ?_, ?_, hlen, Or.inr hi, (hidx.append [c]).concat hi⟩
        · dsimp only at ht ⊢
          by_cases hts : t = s
          · subst hts
            rw [Function.update_self, Option.some.injEq, Prod.mk.injEq] at ht
            rw [← ht.1, ← ht.2]
            exact hnew
          · rw [Function.update_of_ne hts] at ht
            exact getElem?_append_of_some [c] (hslots t i d ht)
        · have := LinearProbe.filled_update_le PAL_HASH st.slots s (st.pal.length, c)
          dsimp only
          rw [List.length_append, List.length_singleton]
          omega

theorem palFold_invariant {px : List UInt32} (todo done : List UInt32) (st st' : PalState)
    (htodo : ∀ c ∈ todo, c ∈ px) (inv : PalInvariant px done st)
    (h : todo.foldlM palStep st = some st') : PalInvariant px (done ++ todo) st' := by
  induction todo generalizing done st with
  | nil =>
      simp only [List.foldlM_nil, Option.pure_def, Option.some.injEq] at h
      subst h
      simpa using inv
  | cons c todo ih =>
      rw [List.foldlM_cons] at h
      obtain ⟨mid, hmid, hrest⟩ := Option.bind_eq_some_iff.mp h
      have hstep := palStep_invariant (htodo c List.mem_cons_self) inv hmid
      simpa using ih (done ++ [c]) mid (fun d hd => htodo d (List.mem_cons_of_mem c hd)) hstep hrest

-- No pixel has the initial value of `last`: its top byte is not zero.
theorem complement_ne {px : List UInt32} (hpx : ∀ c ∈ px, Rgb24 c) :
    ∀ c ∈ px, c ≠ ~~~(px.getD 0 0) := by
  intro c hc heq
  have hlt : ∀ d : UInt32, Rgb24 d → d.toNat < 2 ^ 24 := by
    rintro _ ⟨r, g, b, rfl⟩
    exact rgb_lt r g b
  have hfirst : (px.getD 0 0).toNat < 2 ^ 24 := by
    cases px with
    | nil => simp at hc
    | cons d px => exact hlt d (hpx d List.mem_cons_self)
  have hn := congrArg UInt32.toNat heq
  rw [UInt32.toNat_not] at hn
  have := hlt c (hpx c hc)
  rw [show UInt32.size = 2 ^ 32 from rfl] at hn
  omega

theorem buildPalette_invariant {px : List UInt32} {st : PalState} (hpx : ∀ c ∈ px, Rgb24 c)
    (h : buildPalette px = some st) : PalInvariant px px st := by
  have h₀ : PalInvariant px [] (palInit px) := by
    refine ⟨by simp [palInit], ?_, by simp [palInit], Or.inl (complement_ne hpx), .nil⟩
    simp [LinearProbe.filled, palInit]
  simpa using palFold_invariant px [] _ st (fun _ h => h) h₀ h

theorem Indexes.getElem {pal : List UInt32} {idx : List UInt8} {px : List UInt32}
    (h : Indexes pal idx px) (i : Nat) (hi : i < px.length) :
    pal[(idx.getD i 0).toNat]? = some px[i] := by
  have hl := List.Forall₂.length_eq h
  have := (List.forall₂_iff_get.mp h).2 i (by omega) hi
  rw [List.getD_eq_getElem _ _ (by omega)]
  simpa using this

theorem palBpp_cases (np : Nat) :
    palBpp np = 1 ∨ palBpp np = 2 ∨ palBpp np = 4 ∨ palBpp np = 8 := by
  unfold palBpp
  split_ifs <;> simp

theorem le_two_pow_palBpp (np : Nat) (h : np ≤ 256) : np ≤ 2 ^ palBpp np := by
  unfold palBpp
  split_ifs <;> omega

theorem unpackIndex_toNat (bpp : Nat) (sr : Bytes) (x : Nat)
    (hbpp : bpp = 1 ∨ bpp = 2 ∨ bpp = 4 ∨ bpp = 8) :
    (unpackIndex bpp sr x).toNat =
      BitField.field bpp (pixelShift bpp x) (byteAt sr (x / (8 / bpp))).toNat := by
  have hs : pixelShift bpp x < 8 := by
    unfold pixelShift
    rcases hbpp with rfl | rfl | rfl | rfl <;> omega
  have hmask : (UInt8.ofNat (2 ^ bpp - 1)).toNat = 2 ^ bpp - 1 := by
    rcases hbpp with rfl | rfl | rfl | rfl <;> rfl
  rw [unpackIndex, UInt8.toNat_and, hmask, UInt8.toNat_shiftRight, UInt8.toNat_ofNat',
    Nat.mod_eq_of_lt (show pixelShift bpp x < 2 ^ 8 by omega), Nat.mod_eq_of_lt hs]
  rfl

theorem shifted_toNat (bpp x : Nat) (v : UInt8) (hbpp : bpp = 1 ∨ bpp = 2 ∨ bpp = 4 ∨ bpp = 8)
    (hv : v.toNat < 2 ^ bpp) :
    (v <<< UInt8.ofNat (pixelShift bpp x)).toNat = v.toNat <<< pixelShift bpp x := by
  have hs : pixelShift bpp x + bpp ≤ 8 := by
    unfold pixelShift
    rcases hbpp with rfl | rfl | rfl | rfl <;> omega
  have hb : 0 < bpp := by rcases hbpp with rfl | rfl | rfl | rfl <;> omega
  rw [UInt8.toNat_shiftLeft, UInt8.toNat_ofNat', Nat.mod_eq_of_lt (show pixelShift bpp x < 2 ^ 8 by omega),
    Nat.mod_eq_of_lt (show pixelShift bpp x < 8 by omega)]
  apply Nat.mod_eq_of_lt
  rw [Nat.shiftLeft_eq]
  calc v.toNat * 2 ^ pixelShift bpp x < 2 ^ bpp * 2 ^ pixelShift bpp x :=
        Nat.mul_lt_mul_of_pos_right hv (Nat.two_pow_pos _)
    _ = 2 ^ (bpp + pixelShift bpp x) := (Nat.pow_add 2 _ _).symm
    _ ≤ 2 ^ 8 := Nat.pow_le_pow_right Nat.zero_lt_two (by omega)

-- Two columns packed into one byte use separate bits.
theorem pixelShift_disjoint (bpp x x' : Nat) (hbpp : bpp = 1 ∨ bpp = 2 ∨ bpp = 4 ∨ bpp = 8)
    (hne : x ≠ x') (hbyte : x / (8 / bpp) = x' / (8 / bpp)) :
    pixelShift bpp x + bpp ≤ pixelShift bpp x' ∨ pixelShift bpp x' + bpp ≤ pixelShift bpp x := by
  unfold pixelShift
  rcases hbpp with rfl | rfl | rfl | rfl <;> norm_num at hbyte ⊢ <;> omega

def packUpTo (bpp w : Nat) (sr : Nat → UInt8) (k : Nat) : Bytes :=
  (List.range k).foldl
    (fun dr x => dr.modify (x / (8 / bpp)) (· ||| (sr x <<< UInt8.ofNat (pixelShift bpp x))))
    (List.replicate (rowBytes w bpp) 0)

theorem packUpTo_succ (bpp w : Nat) (sr : Nat → UInt8) (k : Nat) :
    packUpTo bpp w sr (k + 1) = (packUpTo bpp w sr k).modify (k / (8 / bpp))
      (· ||| (sr k <<< UInt8.ofNat (pixelShift bpp k))) := by
  simp [packUpTo, List.range_succ]

theorem packUpTo_length (bpp w : Nat) (sr : Nat → UInt8) (k : Nat) :
    (packUpTo bpp w sr k).length = rowBytes w bpp := by
  induction k with
  | zero => simp [packUpTo]
  | succ k ih => rw [packUpTo_succ, List.length_modify, ih]

theorem packRow_length (bpp w : Nat) (sr : Nat → UInt8) :
    (packRow bpp w sr).length = rowBytes w bpp := packUpTo_length bpp w sr w

theorem byteAt_modify (l : Bytes) (i j : Nat) (f : UInt8 → UInt8) (hi : i < l.length) :
    byteAt (l.modify i f) j = if i = j then f (byteAt l j) else byteAt l j := by
  unfold byteAt
  rw [List.getD_eq_getElem?_getD, List.getElem?_modify, List.getD_eq_getElem?_getD]
  split_ifs with h
  · subst h
    simp [hi]
  · simp

theorem column_byte_lt (bpp w x : Nat) (hbpp : bpp = 1 ∨ bpp = 2 ∨ bpp = 4 ∨ bpp = 8) (hx : x < w) :
    x / (8 / bpp) < rowBytes w bpp := by
  unfold rowBytes
  rcases hbpp with rfl | rfl | rfl | rfl <;> norm_num <;> omega

-- Columns already written read back; the others are still zero.
theorem field_packUpTo (bpp w : Nat) (sr : Nat → UInt8) (k x : Nat)
    (hbpp : bpp = 1 ∨ bpp = 2 ∨ bpp = 4 ∨ bpp = 8) (hk : k ≤ w)
    (hsr : ∀ x < w, (sr x).toNat < 2 ^ bpp) :
    BitField.field bpp (pixelShift bpp x) (byteAt (packUpTo bpp w sr k) (x / (8 / bpp))).toNat =
      if x < k then (sr x).toNat else 0 := by
  induction k with
  | zero =>
      have hz : byteAt (packUpTo bpp w sr 0) (x / (8 / bpp)) = 0 := by
        simp only [packUpTo, List.range_zero, List.foldl_nil, byteAt, List.getD_eq_getElem?_getD,
          List.getElem?_replicate]
        split_ifs <;> rfl
      rw [hz]
      simp [BitField.field_zero]
  | succ k ih =>
      have hlt := column_byte_lt bpp w k hbpp hk
      rw [packUpTo_succ, byteAt_modify _ _ _ _ (by rwa [packUpTo_length])]
      by_cases hbyte : k / (8 / bpp) = x / (8 / bpp)
      · rw [if_pos hbyte, UInt8.toNat_or, shifted_toNat bpp k _ hbpp (hsr k hk)]
        by_cases hxk : k = x
        · subst hxk
          rw [BitField.field_or_self _ _ _ _ (hsr k hk) (by rw [ih (by omega), if_neg (by omega)]),
            if_pos (by omega)]
        · rw [BitField.field_or_other _ _ _ _ _ (hsr k hk)
            (pixelShift_disjoint bpp x k hbpp (Ne.symm hxk) hbyte.symm), ih (by omega)]
          exact if_congr (by omega) rfl rfl
      · have hxk : x ≠ k := fun h => hbyte (by rw [h])
        rw [if_neg hbyte, ih (by omega)]
        exact if_congr (by omega) rfl rfl

theorem unpack_packRow (bpp w : Nat) (sr : Nat → UInt8) (x : Nat)
    (hbpp : bpp = 1 ∨ bpp = 2 ∨ bpp = 4 ∨ bpp = 8) (hx : x < w)
    (hsr : ∀ x < w, (sr x).toNat < 2 ^ bpp) :
    unpackIndex bpp (packRow bpp w sr) x = sr x := by
  apply UInt8.toNat_inj.mp
  rw [unpackIndex_toNat _ _ _ hbpp]
  have := field_packUpTo bpp w sr w x hbpp le_rfl hsr
  rwa [if_pos hx] at this

theorem packIndices_length (bpp w h : Nat) (idx : List UInt8) :
    (packIndices bpp w h idx).length = rowBytes w bpp * h := by
  rw [packIndices, Chunks.length_flatMap_const _ _ (rowBytes w bpp) fun y _ => packRow_length _ _ _,
    List.length_range, Nat.mul_comm]

-- A column of a packed row reads its index back.
theorem unpack_packIndices (bpp w h : Nat) (idx : List UInt8) (x y : Nat)
    (hbpp : bpp = 1 ∨ bpp = 2 ∨ bpp = 4 ∨ bpp = 8) (hx : x < w) (hy : y < h)
    (hidx : ∀ i < w * h, (idx.getD i 0).toNat < 2 ^ bpp) :
    unpackIndex bpp ((packIndices bpp w h idx).drop (y * rowBytes w bpp)) x = idx.getD (y * w + x) 0 := by
  have hrow := unpack_packRow bpp w (fun x => idx.getD (y * w + x) 0) x hbpp hx
    fun x hx => hidx _ (index_lt hx hy)
  rw [← hrow]
  unfold unpackIndex packIndices
  congr 2
  rw [Chunks.drop_flatMap_const _ _ (rowBytes w bpp) y (by simpa using hy) fun y _ => packRow_length _ _ _]
  unfold byteAt
  rw [List.getD_eq_getElem?_getD, List.getElem?_append_left, ← List.getD_eq_getElem?_getD,
    List.getElem_range]
  rw [packRow_length]
  exact column_byte_lt bpp w x hbpp hx

end TetherDesk.Codec
